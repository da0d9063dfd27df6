import Telecran.Proofs.AdxlOps
import Telecran.Proofs.MasterBytes
import Telecran.Soundness.MasterFraming

/-! # The single byte master reads one byte

A read sends the address byte and, if that is acknowledged, samples eight bits, most significant first.
It ends after 56 ticks with the byte, or after 32 with an error and the old byte. The STOP follows the
eighth bit at once: there is no ninth pulse in which the byte could be refused.
-/

namespace Telecran.Model.I2cMaster.Fsm

open Machine Bus

variable {s : Fsm}

theorem recv_bit (input : ℕ → Input) {i : ℕ} (call : s.st = .recvByte0) (index : s.bitI = i + 1) :
    master.Segment Going s input 3 (pulse true true)
      { s with
        sclOe := true, sdaOe := false, bitI := i, rd := Adxl.setBit s.rd (i + 1) (input 1).slave } := by
  cases s
  subst call index
  refine three_ticks input rfl rfl ?_ ?_ ?_ ?_ ?_ <;> simp [tick, Going, level, pulse, sdaIn]

/-- The STOP follows the last bit. -/
theorem recv_last (input : ℕ → Input) (call : s.st = .recvByte0) (index : s.bitI = 0) :
    master.Segment Going s input 3 (pulse true true)
      { s with
        sclOe := true, sdaOe := false, rd := Adxl.setBit s.rd 0 (input 1).slave, st := .stop0 } := by
  cases s
  subst call index
  refine three_ticks input rfl rfl ?_ ?_ ?_ ?_ ?_ <;> simp [tick, Going, level, pulse, sdaIn]

theorem recv_run (input : ℕ → Input) {i : ℕ} (call : s.st = .recvByte0) (index : s.bitI = i) :
    master.Segment Going s input (3 * (i + 1)) (pulses (List.replicate (i + 1) true))
      { s with
        sclOe := true, sdaOe := false, bitI := 0, st := .stop0
        rd := Adxl.Fsm.sampled s.rd (fun k => (input (3 * k + 1)).slave) i } := by
  induction i generalizing s input with
  | zero =>
    have last := recv_last input call index
    simpa [pulses, index, Adxl.Fsm.sampled] using last
  | succ i ih =>
    have length : 3 * (i + 1 + 1) = 3 + 3 * (i + 1) := by ring
    have shift : ∀ k, 3 * (k + 1) + 1 = 3 + (3 * k + 1) := by
      intro k
      ring
    have rest := ih (fun k => input (3 + k)) (s := { s with
      sclOe := true, sdaOe := false, bitI := i, rd := Adxl.setBit s.rd (i + 1) (input 1).slave }) call rfl
    rw [length, Adxl.Fsm.sampled]
    simp only [shift]
    exact (recv_bit input call index).trans rest

end Telecran.Model.I2cMaster.Fsm

namespace Telecran.Soundness.ReadByte

open Machine Bus Model I2cMaster MasterFraming

/-- The transaction puts `out` on the bus in its first `n` ticks, then it stops and is done for one tick;
it is busy from its first tick on until it is done. -/
structure Finishes (s : Fsm) (input : ℕ → Input) (n : ℕ) (out : List Level) (error : Bool) : Prop where
  wave : Fsm.master.emitted s input n = out
  going : ∀ k < n, (run Fsm.tick s input k).Going
  stop0 : (run Fsm.tick s input n).st = .stop0
  stop1 : (run Fsm.tick s input (n + 1)).st = .stop1
  done : (run Fsm.tick s input (n + 2)).st = .done
  ackerr : (run Fsm.tick s input (n + 2)).ackerrI = error
  idle : (run Fsm.tick s input (n + 3)).st = .idle
  busy : ∀ k, 0 < k → k < n + 2 → (run Fsm.tick s input k).oBusy = true

section Transaction

variable {s : Fsm} {input : ℕ → Input} {a : BitVec 7}

private theorem finishes {n : ℕ} {out : List Level} {t : Fsm} (call : s.st = .idle)
    (start : (input 0).iStart = true) (sent : Fsm.master.Segment Fsm.Going s input n out t)
    (stop : t.st = .stop0) :
    Finishes s input n out t.ackerrI ∧ (run Fsm.tick s input (n + 2)).rd = t.rd := by
  have last : run Fsm.tick s input n = t := sent.last
  have stop0 : (run Fsm.tick s input n).st = .stop0 := last ▸ stop
  obtain ⟨stop1, -, done⟩ := Fsm.stop_run (fun k => input (n + k)) stop
  rw [← last, ← run_add] at stop1 done
  have busy (k : ℕ) (positive : 0 < k) (bound : k < n + 2) : (run Fsm.tick s input k).oBusy = true := by
    obtain before | rfl | rfl : k < n ∨ k = n ∨ k = n + 1 := by omega
    · exact Fsm.going_busy input call start sent positive before
    · rw [Fsm.oBusy, stop0]
      rfl
    · rw [Fsm.oBusy, stop1]
      rfl
  refine ⟨⟨sent.heard, sent.inside, stop0, stop1, by rw [done], by rw [done, last], ?_, busy⟩,
    by rw [done, last]⟩
  rw [show n + 3 = n + 2 + 1 from rfl, run_succ, done]
  rfl

/-- The address and the direction are held from the tick on that loads the address byte, up to the
tick that looks at its acknowledge. -/
def Held (input : ℕ → Input) (a : BitVec 7) : Prop :=
  ∀ j, 2 ≤ j → j ≤ 29 → (input j).iRw = true ∧ (input j).iAddr7 = a

private theorem Held.addrByte (held : Held input a) {j : ℕ} (low : 2 ≤ j) (high : j ≤ 29) :
    (input j).addrByte = Adxl.addrRd a := by
  rw [Input.addrByte, (held j low high).1, (held j low high).2]
  rfl

private theorem refused_run (idle : s.st = .idle) (start : (input 0).iStart = true) (held : Held input a)
    (refused : (input 28).slave = true) :
    Finishes s input 30 (startWave ++ Fsm.frameWave (Adxl.addrRd a)) true ∧
      (run Fsm.tick s input 32).rd = s.rd := by
  have address := Fsm.address_run input idle start
  rw [held.addrByte le_rfl (by decide), Fsm.acked_nack refused] at address
  exact finishes idle start address rfl

private theorem acked_read {t : Fsm} {i : Input} (ack : t.sdaSample = false) (read : i.iRw = true)
    (same : t.sh = i.addrByte) : t.acked i = { t with bitI := 7, st := .recvByte0 } := by
  simp [Fsm.acked, ack, read, same]

private theorem read_run (idle : s.st = .idle) (start : (input 0).iStart = true) (held : Held input a)
    (ack : (input 28).slave = false) :
    Finishes s input 54 (startWave ++ Fsm.frameWave (Adxl.addrRd a) ++ pulses (List.replicate 8 true)) false ∧
      (run Fsm.tick s input 56).rd = Adxl.Fsm.sampled s.rd (fun k => (input (30 + (3 * k + 1))).slave) 7 := by
  have address := Fsm.address_run input idle start
  have same : ((s.addressed (input 2)).acking (input 28).slave).sh = (input 29).addrByte := by
    rw [held.addrByte (by decide) le_rfl]
    exact held.addrByte le_rfl (by decide)
  rw [held.addrByte le_rfl (by decide), acked_read ack (held 29 (by decide) le_rfl).1 same] at address
  exact finishes idle start (address.trans (Fsm.recv_run (fun k => input (30 + k)) rfl rfl)) rfl

end Transaction

/-! ## Main result -/

/-- A read that is started in the idle state, with its address and direction held, sends the address
byte. If it is acknowledged, the eight bits that the slave leaves on SDA on the ticks 31, 34, …, 52 are
the byte that is read, most significant first, and the transaction is done on tick 56. If it is refused,
the transaction is done on tick 32 with an error, and the byte is the one read before. -/
theorem reads_byte (g : Adxl.Generics) (input : ℕ → Input) (k : ℕ) (a : BitVec 7)
    (idle : (atTick g input k).st = .idle) (start : (tickInput g input k).iStart = true)
    (held : Held (fun j => tickInput g input (k + j)) a) :
    ((tickInput g input (k + 28)).slave = false →
      Finishes (atTick g input k) (fun j => tickInput g input (k + j)) 54
        (startWave ++ Fsm.frameWave (Adxl.addrRd a) ++ pulses (List.replicate 8 true)) false ∧
      ∀ b < 8, (atTick g input (k + 56)).rd.getLsbD b =
        (tickInput g input (k + (31 + 3 * (7 - b)))).slave) ∧
    ((tickInput g input (k + 28)).slave = true →
      Finishes (atTick g input k) (fun j => tickInput g input (k + j)) 30
        (startWave ++ Fsm.frameWave (Adxl.addrRd a)) true ∧
      (atTick g input (k + 32)).rd = (atTick g input k).rd) := by
  constructor
  · intro ack
    obtain ⟨ends, byte⟩ := read_run idle start held ack
    refine ⟨ends, fun b bound => ?_⟩
    rw [atTick_add, byte, Adxl.Fsm.sampled_getLsbD _ _ (by decide) bound, if_pos (by omega)]
    congr 2
    omega
  · intro refused
    obtain ⟨ends, byte⟩ := refused_run idle start held refused
    exact ⟨ends, by rw [atTick_add, byte]⟩

theorem reads_byte_query : (atTick Adxl.defaults query (0 + 56)).rd.getLsbD 0 = true := by
  have read := (reads_byte Adxl.defaults query 0 0x1D ?_ ?_ ?_).1 ?_
  · rw [read.2 0 (by decide), tickInput_query]
    rfl
  · rw [atTick_eq]
    rfl
  · rw [tickInput_query]
    rfl
  · intro j _ _
    dsimp only
    rw [tickInput_query]
    exact ⟨rfl, rfl⟩
  · rw [tickInput_query]
    rfl

end Telecran.Soundness.ReadByte
