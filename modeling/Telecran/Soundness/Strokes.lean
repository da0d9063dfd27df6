import Telecran.Machine.Walk
import Telecran.Soundness.Cursor
import Telecran.Soundness.Erase

/-! # Strokes of the pen

While the pen is down it leaves a line without gaps: each clock moves it by at most one pixel on each
axis, unless a counter leaves its range, and every pixel it has been on stays white.
-/

namespace Telecran.Soundness.Strokes

open Machine Model Cursor Erase

variable {d : Drawing} {events : ℕ → DrawingEvent} {a b : ℕ}

/-- The pen is down from clock `a` to clock `b`, and no clear is running. -/
structure Stroke (d : Drawing) (events : ℕ → DrawingEvent) (a b : ℕ) : Prop where
  drawn : ∀ n, a ≤ n → n < b → ∃ i, events n = .clock i ∧ i.iRightPb = true
  idle : ∀ n, a ≤ n → n ≤ b → (d.after events n).clrEn = false

/-- No count leaves its range during the stroke. -/
def Kept (d : Drawing) (events : ℕ → DrawingEvent) (a b : ℕ) : Prop :=
  ∀ n, a ≤ n → n < b →
    Inside hRes (knob (d.after events n).enc.tick (d.after events n).left) (d.after events n).left.cnt ∧
    Inside vRes (knob (d.after events n).enc.tick (d.after events n).right) (d.after events n).right.cnt

theorem Stroke.shorten {b' : ℕ} (stroke : Stroke d events a b) (shorter : b' ≤ b) : Stroke d events a b' where
  drawn n first last := stroke.drawn n first (last.trans_le shorter)
  idle n first last := stroke.idle n first (last.trans shorter)

/-- One clock of a stroke draws the pixel under the pen. -/
theorem Stroke.step (stroke : Stroke d events a b) {n : ℕ} (first : a ≤ n) (last : n < b) :
    (d.after events (n + 1)).fb.ram =
      Function.update (d.after events n).fb.ram (d.after events n).wrAddr 0xFF := by
  obtain ⟨i, event, down⟩ := stroke.drawn n first last
  have idle := stroke.idle n first last.le
  have next : d.after events (n + 1) = (d.after events n).clock i := by
    rw [Erase.after_succ, event, Drawing.step]
  have port : (d.after events n).portA i.iRightPb = ⟨true, (d.after events n).wrAddr, 0xFF⟩ := by
    rw [Drawing.portA, if_neg (by simp [idle]), down]
  rw [next, clock_ram, port, Write.apply_enabled rfl]

/-- The words under the pen, and no others, have become white. -/
theorem Stroke.words (stroke : Stroke d events a b) (ordered : a ≤ b) (addr : ℕ) :
    ((∃ n, a ≤ n ∧ n < b ∧ (d.after events n).wrAddr = addr) → (d.after events b).fb.ram addr = 0xFF) ∧
      ((∀ n, a ≤ n → n < b → (d.after events n).wrAddr ≠ addr) →
        (d.after events b).fb.ram addr = (d.after events a).fb.ram addr) := by
  induction b, ordered using Nat.le_induction with
  | base =>
    refine ⟨?_, fun _ => rfl⟩
    rintro ⟨n, first, last, -⟩
    omega
  | succ b ordered ih =>
    obtain ⟨inked, kept⟩ := ih (stroke.shorten (Nat.le_succ b))
    rw [stroke.step ordered (Nat.lt_succ_self b)]
    constructor
    · rintro ⟨n, first, last, here⟩
      by_cases now : addr = (d.after events b).wrAddr
      · rw [now, Function.update_self]
      · rw [Function.update_of_ne now]
        refine inked ⟨n, first, ?_, here⟩
        rcases Nat.lt_succ_iff_lt_or_eq.mp last with earlier | rfl
        · exact earlier
        · exact absurd here.symm now
    · intro elsewhere
      rw [Function.update_of_ne (elsewhere b ordered (Nat.lt_succ_self b)).symm]
      exact kept fun n first last => elsewhere n first (by omega)

/-- The pen is on a word exactly when it is at its pixel. -/
theorem wrAddr_iff (d : Drawing) {x y : ℕ} (hx : x < 720) :
    d.wrAddr = y * 720 + x ↔ d.xPos = x ∧ d.yPos = y := by
  have inside := d.pos_lt
  simp only [Drawing.wrAddr, hRes]
  omega

/-- During a stroke both coordinates walk. -/
theorem Stroke.walks (stroke : Stroke d events a b) (kept : Kept d events a b) :
    Walks (fun n => (d.after events n).xPos) a b ∧ Walks (fun n => (d.after events n).yPos) a b := by
  have near (n : ℕ) (first : a ≤ n) (last : n < b) :
      ((d.after events (n + 1)).xPos ≤ (d.after events n).xPos + 1 ∧
        (d.after events n).xPos ≤ (d.after events (n + 1)).xPos + 1) ∧
      (d.after events (n + 1)).yPos ≤ (d.after events n).yPos + 1 ∧
        (d.after events n).yPos ≤ (d.after events (n + 1)).yPos + 1 := by
    obtain ⟨i, event, -⟩ := stroke.drawn n first last
    have next : d.after events (n + 1) = (d.after events n).clock i := by
      rw [Erase.after_succ, event, Drawing.step]
    obtain ⟨left, right⟩ := kept n first last
    rw [next]
    exact ⟨((follows_iff (by simp) (by simp) _ _ i.iLeftCh).mpr left).near,
      ((follows_iff (by simp) (by simp) _ _ i.iRightCh).mpr right).near⟩
  constructor
  · intro n first last
    have here := near n first last
    dsimp only
    omega
  · intro n first last
    have here := near n first last
    dsimp only
    omega

/-! ## On the screen -/

theorem colour_eq (d : Drawing) (x y : ℕ) (de : Bool) :
    d.colour x y de = Drawing.hdmiTxD de (d.fb.ram (y * 720 + x)) := by
  rw [Drawing.colour, Dpram.clockB_read _ _ rfl]

/-- Ink is white until the next clear. -/
theorem inked_white {n : ℕ} (idle : (d.after events n).clrEn = false) {x y : ℕ} (hx : x < 720) (hy : y < 480)
    (inked : Inked d events n (y * 720 + x)) : (d.after events n).colour x y true = 0xFFFFFF := by
  have word := (words_after d events n).inked idle _ (by simp only [fbSize]; omega) inked
  rw [colour_eq, word]
  decide

/-- A stroke of the pen moves by at most one pixel a clock on each axis, stays white on the screen until the
next clear, meets every column and every line between its ends, and changes no pixel that the pen has not
been on. -/
theorem stroke_without_gaps (stroke : Stroke d events a (b + 1)) (kept : Kept d events a b) (ordered : a ≤ b) :
    Walks (fun n => (d.after events n).xPos) a b ∧ Walks (fun n => (d.after events n).yPos) a b ∧
    (∀ m, b < m → (∀ k, b < k → k ≤ m → (d.after events k).clrEn = false) → ∀ n, a ≤ n → n ≤ b →
      (d.after events m).colour (d.after events n).xPos (d.after events n).yPos true = 0xFFFFFF) ∧
    (∀ x : ℕ, ((d.after events a).xPos ≤ x ∧ x ≤ (d.after events b).xPos ∨
        (d.after events b).xPos ≤ x ∧ x ≤ (d.after events a).xPos) →
      ∃ n, a ≤ n ∧ n ≤ b ∧ (d.after events n).xPos = x) ∧
    (∀ y : ℕ, ((d.after events a).yPos ≤ y ∧ y ≤ (d.after events b).yPos ∨
        (d.after events b).yPos ≤ y ∧ y ≤ (d.after events a).yPos) →
      ∃ n, a ≤ n ∧ n ≤ b ∧ (d.after events n).yPos = y) ∧
    ∀ x < 720, ∀ y de, (∀ n, a ≤ n → n ≤ b → ¬((d.after events n).xPos = x ∧ (d.after events n).yPos = y)) →
      (d.after events (b + 1)).colour x y de = (d.after events a).colour x y de := by
  obtain ⟨columns, lines⟩ := (stroke.shorten (Nat.le_succ b)).walks kept
  refine ⟨columns, lines, fun m later clear n first last => ?_, fun x between => ?_, fun y between => ?_,
    fun x hx y de untouched => ?_⟩
  · obtain ⟨i, event, down⟩ := stroke.drawn n first (by omega)
    obtain ⟨hx, hy⟩ := (d.after events n).pos_lt
    refine inked_white (clear m later le_rfl) hx hy ⟨n, by omega, ?_, rfl, fun k from_ till => ?_⟩
    · rw [event]
      exact ⟨stroke.idle n first (by omega), down⟩
    · rcases Nat.lt_or_ge b k with after | before
      · exact clear k after till
      · exact stroke.idle k (by omega) (by omega)
  · obtain ⟨n, first, last, here⟩ := columns.meets ordered (c := x) (by omega)
    exact ⟨n, first, last, by omega⟩
  · obtain ⟨n, first, last, here⟩ := lines.meets ordered (c := y) (by omega)
    exact ⟨n, first, last, by omega⟩
  · have same := (stroke.words (by omega) (y * 720 + x)).2 fun n first last here =>
      untouched n first (by omega) ((wrAddr_iff _ hx).mp here)
    rw [colour_eq, colour_eq, same]

/-! ## A stroke to the right -/

/-- The pen is down from the reset on, and channel A of the left encoder closes at clock 350000. -/
def dragged (n : ℕ) : DrawingIn := ⟨(decide (350000 ≤ n), false), (false, false), true, true⟩

def drag (n : ℕ) : DrawingEvent := .clock (dragged n)

private theorem dragged_idle {n : ℕ} (late : fbSize ≤ n) : (coldDrawing.after drag n).clrEn = false :=
  Untouched.idle (t := n) (fun _ _ => ⟨_, rfl, rfl⟩) (fun _ => ⟨_, rfl⟩) late le_rfl

/-- The left encoder after `j` samples. -/
def draggedLeft (j : ℕ) : Encoder 10 :=
  run Encoder.sample .reset (fun k => (dragged (5001 * (k + 1))).iLeftCh) j

private theorem dragged_left (n : ℕ) : (coldDrawing.after drag n).left = draggedLeft ((n - 1) / 5001) :=
  after_left coldDrawing dragged n

private theorem dragged_right (n : ℕ) : (coldDrawing.after drag n).right = .reset := by
  induction n with
  | zero => rfl
  | succ n ih =>
    rw [Erase.after_succ, drag, Drawing.step, Drawing.clock, ih]
    exact Encoder.clock_reset _

private theorem dragged_stroke : Stroke coldDrawing drag 350000 360001 where
  drawn n _ _ := ⟨dragged n, rfl, rfl⟩
  idle n first _ := dragged_idle (le_trans (by decide) first)

/-- The left encoder is sampled twice during the stroke, and the second sample counts to the right. -/
private theorem draggedLeft_inside : ∀ j ∈ [69, 70, 71], ∀ tick,
    Inside hRes (knob tick (draggedLeft j)) (draggedLeft j).cnt := by
  decide

private theorem dragged_kept : Kept coldDrawing drag 350000 360000 := by
  intro n first last
  rw [dragged_left, dragged_right]
  constructor
  · refine draggedLeft_inside _ ?_ _
    simp only [List.mem_cons, List.not_mem_nil, or_false]
    omega
  · cases (coldDrawing.after drag n).enc.tick <;> decide

private theorem dragged_pos (n : ℕ) :
    (coldDrawing.after drag n).xPos = shown 720 (draggedLeft ((n - 1) / 5001)).cnt ∧
      (coldDrawing.after drag n).yPos = 0 := by
  rw [Drawing.xPos, Drawing.yPos, dragged_left, dragged_right]
  exact ⟨rfl, rfl⟩

/-- The stroke has moved by one pixel and leaves both of them white behind it. -/
theorem stroke_without_gaps_right :
    (coldDrawing.after drag 360001).colour 0 0 true = 0xFFFFFF ∧
      (coldDrawing.after drag 360001).colour 1 0 true = 0xFFFFFF := by
  obtain ⟨-, -, white, -⟩ := stroke_without_gaps dragged_stroke dragged_kept (by decide)
  have idle (k : ℕ) (later : 360000 < k) (_ : k ≤ 360001) : (coldDrawing.after drag k).clrEn = false :=
    dragged_idle ((by decide : fbSize ≤ 360000).trans later.le)
  have before := white 360001 (by decide) idle 350000 le_rfl (by decide)
  have after := white 360001 (by decide) idle 360000 (by decide) le_rfl
  rw [(dragged_pos _).1, (dragged_pos _).2] at before after
  exact ⟨before, after⟩

end Telecran.Soundness.Strokes
