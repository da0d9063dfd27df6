import Telecran.Model.Board

/-! # What the framebuffer shows in each engine state

The invariant is about the framebuffer with the engine's registered write already committed, so
the one-clock delay of the write port disappears: each clock applies the request it registers.
A repaint shows its picture below the sweep address; the ball scans show the background with the
ball on the cells that are not yet erased, or already drawn.
-/

namespace Telecran.Model

open Machine

/-- The first `n` words show the picture. -/
def Painted (m : Memory Pixel) (picture : ℤ → ℤ → Pixel) (n : ℕ) : Prop :=
  Shows m (fun addr => picture (addrX addr) (addrY addr)) n

theorem Painted.pixel {m : Memory Pixel} {picture : ℤ → ℤ → Pixel}
    (painted : Painted m picture fbSize) {x y : ℤ} (on : OnScreen x y) :
    m (toAddr x y) = picture x y := by
  have word := painted (toAddr x y) (toAddr_lt x y)
  dsimp only at word
  rwa [(addr_toAddr on).1, (addr_toAddr on).2] at word

namespace Layout

/-- The game screen with the ball centred at `(cx, cy)`. -/
def scene (l : Layout) (cx cy x y : ℤ) : Pixel :=
  if inGoal x y then logoPixel x y
  else if inRect x y l.hz then pixHazard
  else if l.isWall x y then pixWall
  else if |x - cx| ≤ 2 ∧ |y - cy| ≤ 2 then pixBall
  else pixEmpty

/-- The background with ball pixels on the free ones among the given cells. -/
def overlay (l : Layout) (cells : ℤ → ℤ → Bool) (x y : ℤ) : Pixel :=
  if l.free x y && cells x y then pixBall else l.background x y

theorem free_iff (l : Layout) (x y : ℤ) :
    l.free x y = true ↔ l.isWall x y = false ∧ inGoal x y = false ∧ inRect x y l.hz = false := by
  simp [free, and_assoc]

theorem background_of_free {l : Layout} {x y : ℤ} (free : l.free x y = true) :
    l.background x y = pixEmpty := by
  obtain ⟨wall, goal, hazard⟩ := (l.free_iff x y).mp free
  simp [background, wall, goal, hazard]

theorem overlay_none (l : Layout) : l.overlay (fun _ _ => false) = l.background := by
  funext x y
  simp [overlay]

/-- Outside the free pixels the overlay is the background whatever the cells are. -/
theorem overlay_of_not_free {l : Layout} {x y : ℤ} (taken : l.free x y = false)
    (cells : ℤ → ℤ → Bool) : l.overlay cells x y = l.background x y := by
  simp [overlay, taken]

theorem overlay_of_free {l : Layout} {x y : ℤ} (free : l.free x y = true)
    (cells : ℤ → ℤ → Bool) : l.overlay cells x y = if cells x y then pixBall else pixEmpty := by
  simp [overlay, free, background_of_free free]

end Layout

/-! ## Cells of the ball scan -/

/-- The offset lies in the ball's 5x5 box. -/
def inBox (ox oy : ℤ) : Bool := |ox| ≤ 2 && |oy| ≤ 2

/-- The offset comes before `(dx, dy)` in the row by row scan. -/
def before (dx dy ox oy : ℤ) : Bool := oy < dy || (oy = dy && ox < dx)

/-- The scan offsets stay inside the box. -/
def InScan (dx dy : ℤ) : Prop := -2 ≤ dx ∧ dx ≤ 2 ∧ -2 ≤ dy ∧ dy ≤ 2

/-- Cells the erase scan has still to visit. -/
def leftOver (dx dy cx cy x y : ℤ) : Bool :=
  inBox (x - cx) (y - cy) && !before dx dy (x - cx) (y - cy)

/-- Cells the draw scan has visited. -/
def drawn (dx dy cx cy x y : ℤ) : Bool :=
  inBox (x - cx) (y - cy) && before dx dy (x - cx) (y - cy)

theorem inBox_iff {ox oy : ℤ} :
    inBox ox oy = true ↔ (-2 ≤ ox ∧ ox ≤ 2) ∧ -2 ≤ oy ∧ oy ≤ 2 := by
  simp [inBox, abs_le]

theorem before_iff {dx dy ox oy : ℤ} :
    before dx dy ox oy = true ↔ oy < dy ∨ oy = dy ∧ ox < dx := by
  simp [before]

theorem leftOver_iff {dx dy cx cy x y : ℤ} : leftOver dx dy cx cy x y = true ↔
    inBox (x - cx) (y - cy) = true ∧ ¬before dx dy (x - cx) (y - cy) = true := by
  simp [leftOver]

theorem drawn_iff {dx dy cx cy x y : ℤ} : drawn dx dy cx cy x y = true ↔
    inBox (x - cx) (y - cy) = true ∧ before dx dy (x - cx) (y - cy) = true := by
  simp [drawn]

theorem Layout.scene_eq_overlay (l : Layout) (cx cy : ℤ) :
    l.scene cx cy = l.overlay fun x y => inBox (x - cx) (y - cy) := by
  funext x y
  cases free : l.free x y with
  | true =>
    obtain ⟨wall, goal, hazard⟩ := (l.free_iff x y).mp free
    rw [Layout.overlay_of_free free]
    simp [Layout.scene, wall, goal, hazard, inBox]
  | false =>
    rw [Layout.overlay_of_not_free free]
    simp only [Layout.scene, Layout.background]
    simp only [Layout.free, Bool.and_eq_false_iff, Bool.not_eq_false'] at free
    split_ifs <;> simp_all

/-- Before the scan every cell of the box is left over. -/
theorem leftOver_start (cx cy x y : ℤ) :
    leftOver (-2) (-2) cx cy x y = inBox (x - cx) (y - cy) := by
  rw [Bool.eq_iff_iff, leftOver_iff, before_iff, inBox_iff]
  omega

theorem drawn_start (cx cy x y : ℤ) : drawn (-2) (-2) cx cy x y = false := by
  rw [Bool.eq_false_iff, Ne, drawn_iff, before_iff, inBox_iff]
  omega

namespace Engine

/-! ## One write -/

/-- A cell write changes the overlay at its own pixel only. -/
theorem paintCell_painted {e : Engine} {m : Memory Pixel} {x y : ℤ} {data : Pixel}
    {cells cells' : ℤ → ℤ → Bool} (idle : e.weR = false)
    (painted : Painted m (e.layout.overlay cells) fbSize)
    (own : data = if cells' x y then pixBall else pixEmpty)
    (others : ∀ x' y', ¬(x' = x ∧ y' = y) → cells' x' y' = cells x' y') :
    Painted ((e.paintCell x y data).request.apply m) (e.layout.overlay cells') fbSize := by
  subst own
  intro addr bound
  have word := painted addr bound
  dsimp only at word ⊢
  simp only [paintCell]
  by_cases on : OnScreen x y
  · cases free : e.layout.free x y with
    | true =>
      rw [if_pos on, if_pos rfl, Write.apply_enabled (by rfl)]
      simp only [request]
      by_cases here : addr = toAddr x y
      · subst here
        rw [Function.update_self, (addr_toAddr on).1, (addr_toAddr on).2, Layout.overlay_of_free free]
      · rw [Function.update_of_ne here, word]
        have apart : ¬(addrX addr = x ∧ addrY addr = y) := by
          rintro ⟨rfl, rfl⟩
          exact here (toAddr_addr bound).symm
        simp only [Layout.overlay, others _ _ apart]
    | false =>
      rw [if_pos on, if_neg (by simp), Write.apply_idle idle, word]
      by_cases here : addrX addr = x ∧ addrY addr = y
      · rw [here.1, here.2, Layout.overlay_of_not_free free, Layout.overlay_of_not_free free]
      · simp only [Layout.overlay, others _ _ here]
  · rw [if_neg on, Write.apply_idle idle, word]
    have apart : ¬(addrX addr = x ∧ addrY addr = y) := by
      rintro ⟨rfl, rfl⟩
      exact on (onScreen_addr bound)
    simp only [Layout.overlay, others _ _ apart]

/-- The request registered by the last clock survives the choice of the next offset. -/
@[simp] theorem scanBox_request (next : St) (e : Engine) : (e.scanBox next).request = e.request := by
  simp only [scanBox]
  split_ifs <;> rfl

theorem paintCell_frame (x y : ℤ) (data : Pixel) (e : Engine) :
    ∃ we addr d, e.paintCell x y data = { e with weR := we, addrR := addr, dataR := d } := by
  simp only [paintCell]
  split_ifs <;> exact ⟨_, _, _, rfl⟩

/-- The scan ends on the last offset. -/
theorem scanBox_last {e : Engine} (next : St) (last : e.dx = 2 ∧ e.dy = 2) :
    e.scanBox next = { e with dx := -2, dy := -2, st := next } := by
  simp [scanBox, last.1, last.2]

/-- Otherwise it moves to the immediate successor in the row by row order. -/
theorem scanBox_next {e : Engine} (next : St) (inScan : InScan e.dx e.dy)
    (going : ¬(e.dx = 2 ∧ e.dy = 2)) :
    ∃ dx dy, e.scanBox next = { e with dx := dx, dy := dy } ∧ InScan dx dy ∧
      ∀ ox oy, inBox ox oy = true →
        (before dx dy ox oy = true ↔ before e.dx e.dy ox oy = true ∨ ox = e.dx ∧ oy = e.dy) := by
  simp only [InScan] at *
  by_cases column : e.dx = 2
  · refine ⟨-2, e.dy + 1, ?_, by omega, ?_⟩
    · unfold scanBox
      rw [if_pos (show e.dx = ballR from column), if_neg (fun row => going ⟨column, row⟩)]
    · intro ox oy inside
      rw [inBox_iff] at inside
      rw [before_iff, before_iff]
      omega
  · refine ⟨e.dx + 1, e.dy, ?_, by omega, ?_⟩
    · unfold scanBox
      rw [if_neg (show ¬e.dx = ballR from column)]
    · intro ox oy inside
      rw [inBox_iff] at inside
      rw [before_iff, before_iff]
      omega

/-! ## The invariant -/

/-- What the committed framebuffer shows in each state. -/
def Consistent (e : Engine) (m : Memory Pixel) : Prop :=
  match e.st with
  | .levelGen => True
  | .initDraw => e.initAddr < fbSize ∧ Painted m e.layout.background e.initAddr
  | .runIdle => Painted m (e.layout.scene e.bX e.bY) fbSize
  | .eraseBall => InScan e.dx e.dy ∧
      Painted m (e.layout.overlay (leftOver e.dx e.dy e.bXp e.bYp)) fbSize
  | .drawBall => InScan e.dx e.dy ∧
      Painted m (e.layout.overlay (drawn e.dx e.dy e.bX e.bY)) fbSize
  | .winMsgDraw => e.initAddr < fbSize ∧ Painted m winScreen e.initAddr
  | .winMsgWait => Painted m winScreen fbSize
  | .loseMsgDraw => e.initAddr < fbSize ∧ Painted m loseScreen e.initAddr
  | .loseMsgWait => Painted m loseScreen fbSize
  | .quitMsgDraw => e.initAddr < fbSize ∧ Painted m quitScreen e.initAddr
  | .quitMsgWait => Painted m quitScreen fbSize

/-- One clock of a repaint extends the painted part by one word; the last word completes it. -/
theorem sweep_consistent {e : Engine} {m : Memory Pixel} {picture : ℤ → ℤ → Pixel}
    {done : Engine → Engine} (bound : e.initAddr < fbSize) (painted : Painted m picture e.initAddr)
    (keeps : ∀ e', (done e').request = e'.request)
    (going : ∀ e' m', e'.st = e.st → e'.layout = e.layout → e'.initAddr < fbSize →
      Painted m' picture e'.initAddr → Consistent e' m')
    (finish : ∀ e' m', e'.layout = e.layout → Painted m' picture fbSize → Consistent (done e') m') :
    Consistent (e.sweep picture done) ((e.sweep picture done).request.apply m) := by
  have swept := painted.sweep
  unfold sweep
  dsimp only
  by_cases last : e.initAddr = fbSize - 1
  · rw [if_pos last, keeps]
    refine finish _ _ rfl ?_
    rw [Write.apply_enabled (by rfl)]
    rw [show e.initAddr + 1 = fbSize by simp only [fbSize] at *; omega] at swept
    exact swept
  · rw [if_neg last]
    refine going _ _ rfl rfl ?_ ?_
    · simp only [fbSize] at *
      omega
    · rw [Write.apply_enabled (by rfl)]
      exact swept

theorem drawBall_start {e : Engine} {m : Memory Pixel} (here : e.st = .drawBall)
    (column : e.dx = -2) (row : e.dy = -2) (painted : Painted m e.layout.background fbSize) :
    Consistent e m := by
  simp only [Consistent, here, column, row]
  refine ⟨by simp [InScan], ?_⟩
  rw [show drawn (-2) (-2) e.bX e.bY = fun _ _ => false from
    funext fun x => funext fun y => drawn_start e.bX e.bY x y, Layout.overlay_none]
  exact painted

theorem initDraw_consistent {e : Engine} {m : Memory Pixel} (here : e.st = .initDraw)
    (valid : Consistent e m) : Consistent e.initDraw (e.initDraw.request.apply m) := by
  simp only [Consistent, here] at valid
  refine sweep_consistent valid.1 valid.2 (fun _ => rfl) ?_ ?_
  · intro e' m' state layout bound painted
    simp only [Consistent, state, here, layout]
    exact ⟨bound, painted⟩
  · intro e' m' layout painted
    exact drawBall_start rfl rfl rfl (layout ▸ painted)

theorem eraseBall_consistent {e : Engine} {m : Memory Pixel} (here : e.st = .eraseBall)
    (idle : e.weR = false) (valid : Consistent e m) :
    Consistent e.eraseBall (e.eraseBall.request.apply m) := by
  simp only [Consistent, here] at valid
  obtain ⟨inScan, painted⟩ := valid
  simp only [InScan] at inScan
  obtain ⟨we, addr, data, frame⟩ := paintCell_frame (e.bXp + e.dx) (e.bYp + e.dy) pixEmpty e
  unfold eraseBall
  rw [scanBox_request]
  by_cases last : e.dx = 2 ∧ e.dy = 2
  · have erased : Painted ((e.paintCell (e.bXp + e.dx) (e.bYp + e.dy) pixEmpty).request.apply m)
        (e.layout.overlay fun _ _ => false) fbSize := by
      refine paintCell_painted idle painted (by simp) ?_
      intro x y apart
      rw [eq_comm, Bool.eq_false_iff, Ne, leftOver_iff, before_iff, inBox_iff]
      omega
    rw [Layout.overlay_none] at erased
    rw [scanBox_last _ (by rw [frame]; exact last)]
    apply drawBall_start rfl rfl rfl
    rw [frame] at erased ⊢
    exact erased
  · obtain ⟨dx, dy, same, inScan', next⟩ :=
      scanBox_next (e := e.paintCell (e.bXp + e.dx) (e.bYp + e.dy) pixEmpty) .drawBall
        (by rw [frame]; exact inScan) (by rw [frame]; exact last)
    have erased : Painted ((e.paintCell (e.bXp + e.dx) (e.bYp + e.dy) pixEmpty).request.apply m)
        (e.layout.overlay (leftOver dx dy e.bXp e.bYp)) fbSize := by
      simp only [frame] at next
      apply paintCell_painted idle painted
      · rw [if_neg]
        rw [leftOver_iff]
        rintro ⟨inside, after⟩
        exact after ((next _ _ inside).mpr (Or.inr (by omega)))
      · intro x y apart
        rw [Bool.eq_iff_iff, leftOver_iff, leftOver_iff]
        refine and_congr_right fun inside => not_congr ?_
        rw [next _ _ inside]
        exact or_iff_left (by omega)
    rw [same]
    rw [frame] at erased ⊢
    simp only [Consistent, here]
    exact ⟨inScan', erased⟩

theorem drawBall_consistent {e : Engine} {m : Memory Pixel} (here : e.st = .drawBall)
    (idle : e.weR = false) (valid : Consistent e m) :
    Consistent e.drawBall (e.drawBall.request.apply m) := by
  simp only [Consistent, here] at valid
  obtain ⟨inScan, painted⟩ := valid
  simp only [InScan] at inScan
  obtain ⟨we, addr, data, frame⟩ := paintCell_frame (e.bX + e.dx) (e.bY + e.dy) pixBall e
  unfold drawBall
  rw [scanBox_request]
  by_cases last : e.dx = 2 ∧ e.dy = 2
  · have complete : Painted ((e.paintCell (e.bX + e.dx) (e.bY + e.dy) pixBall).request.apply m)
        (e.layout.scene e.bX e.bY) fbSize := by
      rw [Layout.scene_eq_overlay]
      apply paintCell_painted idle painted
      · rw [if_pos]
        rw [inBox_iff]
        omega
      · intro x y apart
        rw [Bool.eq_iff_iff, drawn_iff, before_iff, inBox_iff]
        omega
    rw [scanBox_last _ (by rw [frame]; exact last)]
    rw [frame] at complete ⊢
    exact complete
  · obtain ⟨dx, dy, same, inScan', next⟩ :=
      scanBox_next (e := e.paintCell (e.bX + e.dx) (e.bY + e.dy) pixBall) .runIdle
        (by rw [frame]; exact inScan) (by rw [frame]; exact last)
    have extended : Painted ((e.paintCell (e.bX + e.dx) (e.bY + e.dy) pixBall).request.apply m)
        (e.layout.overlay (drawn dx dy e.bX e.bY)) fbSize := by
      simp only [frame] at next
      apply paintCell_painted idle painted
      · have inside : inBox (e.bX + e.dx - e.bX) (e.bY + e.dy - e.bY) = true := by
          rw [inBox_iff]
          omega
        rw [if_pos]
        exact drawn_iff.mpr ⟨inside, (next _ _ inside).mpr (Or.inr (by omega))⟩
      · intro x y apart
        rw [Bool.eq_iff_iff, drawn_iff, drawn_iff]
        refine and_congr_right fun inside => ?_
        rw [next _ _ inside]
        exact or_iff_left (by omega)
    rw [same]
    rw [frame] at extended ⊢
    simp only [Consistent, here]
    exact ⟨inScan', extended⟩

/-- A physics tick only chooses what is painted next. -/
theorem runIdle_consistent {e : Engine} {m : Memory Pixel} (i : EngineIn) (here : e.st = .runIdle)
    (idle : e.weR = false) (valid : Consistent e m) :
    Consistent (e.runIdle i) ((e.runIdle i).request.apply m) := by
  have unmoved : Consistent e (e.request.apply m) := by rwa [Write.apply_idle idle]
  simp only [Consistent, here] at valid
  unfold runIdle
  dsimp only
  split_ifs
  · exact unmoved
  · rw [Write.apply_idle idle]
    exact ⟨by simp, Shows.zero⟩
  · rw [Write.apply_idle idle]
    exact ⟨by simp, Shows.zero⟩
  · rw [Write.apply_idle idle]
    refine ⟨by simp [InScan], ?_⟩
    rw [Layout.scene_eq_overlay] at valid
    rw [show leftOver (-ballR) (-ballR) e.bX e.bY = fun x y => inBox (x - e.bX) (y - e.bY) from
      funext fun x => funext fun y => leftOver_start e.bX e.bY x y]
    exact valid
  · exact unmoved

/-- The message states repaint the screen with their picture and then hold it. -/
theorem msgDraw_consistent {e : Engine} {m : Memory Pixel} {picture : ℤ → ℤ → Pixel} (wait : St)
    (bound : e.initAddr < fbSize) (painted : Painted m picture e.initAddr)
    (drawing : ∀ e' m', e'.st = e.st → e'.initAddr < fbSize → Painted m' picture e'.initAddr →
      Consistent e' m')
    (waiting : ∀ (e' : Engine) m', Painted m' picture fbSize → Consistent { e' with st := wait } m') :
    Consistent (e.sweep picture fun e' => { e' with st := wait })
      ((e.sweep picture fun e' => { e' with st := wait }).request.apply m) :=
  sweep_consistent bound painted (fun _ => rfl)
    (fun e' m' state _ inside partly => drawing e' m' state inside partly)
    (fun e' m' _ whole => waiting e' m' whole)

theorem msgWait_consistent {e : Engine} {m : Memory Pixel} (level : ℕ) (i : EngineIn)
    (idle : e.weR = false) (valid : ∀ waitS, Consistent { e with waitS := waitS } m) :
    Consistent (e.msgWait level i) ((e.msgWait level i).request.apply m) := by
  unfold msgWait
  split_ifs
  · trivial
  · rw [Write.apply_idle idle]
    exact valid _
  · rw [Write.apply_idle idle]
    exact valid e.waitS

theorem active_consistent {e : Engine} {m : Memory Pixel} (i : EngineIn) (idle : e.weR = false)
    (valid : Consistent e m) : Consistent (e.active i) ((e.active i).request.apply m) := by
  have shown := valid
  unfold active
  unfold Consistent at shown
  cases here : e.st
  all_goals simp only [here] at shown ⊢
  case levelGen => exact ⟨by simp [levelGen], Shows.zero⟩
  case initDraw => exact initDraw_consistent here valid
  case runIdle => exact runIdle_consistent i here idle valid
  case eraseBall => exact eraseBall_consistent here idle valid
  case drawBall => exact drawBall_consistent here idle valid
  case winMsgDraw =>
    refine msgDraw_consistent .winMsgWait shown.1 shown.2 ?_ (fun _ _ painted => painted)
    intro e' m' state bound painted
    simp only [Consistent, state, here]
    exact ⟨bound, painted⟩
  case loseMsgDraw =>
    refine msgDraw_consistent .loseMsgWait shown.1 shown.2 ?_ (fun _ _ painted => painted)
    intro e' m' state bound painted
    simp only [Consistent, state, here]
    exact ⟨bound, painted⟩
  case quitMsgDraw =>
    refine msgDraw_consistent .quitMsgWait shown.1 shown.2 ?_ (fun _ _ painted => painted)
    intro e' m' state bound painted
    simp only [Consistent, state, here]
    exact ⟨bound, painted⟩
  all_goals exact msgWait_consistent _ i idle (fun _ => valid)

/-- Every clock keeps the framebuffer in step with the engine, whatever the inputs are. -/
theorem clock_consistent {e : Engine} {m : Memory Pixel} (i : EngineIn) (valid : Consistent e m) :
    Consistent (e.clock i) ((e.clock i).request.apply m) := by
  unfold clock
  split_ifs
  · exact ⟨by simp, Shows.zero⟩
  · exact active_consistent i rfl valid

end Engine

end Telecran.Model
