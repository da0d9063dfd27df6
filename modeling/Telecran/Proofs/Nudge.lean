import Telecran.Proofs.Walls
import Telecran.Model.Board

/-! # Nudging the ball

One sample just over the dead band followed by two at rest moves the ball by one pixel on the slow
levels and by three on the fast ones, and leaves it standing. Along the free strips of a generated
layout this steers it exactly.
-/

namespace Telecran.Model

/-- An accelerometer sample, `i_ax` and `i_ay`. -/
abbrev Sample := BitVec 16 × BitVec 16

/-! ## The strength of a nudge -/

/-- The velocity that one of the smallest samples above the dead band adds. -/
def kick (level : ℕ) : ℤ := thrust level (accelGame 20)

/-- How far a nudge carries the ball. -/
def reach (level : ℕ) : ℤ := 2 * kick level - 3

theorem accDiv_bounds (level : ℕ) : 160 ≤ accDiv level ∧ accDiv level ≤ 256 := by
  unfold accDiv
  split_ifs <;> omega

theorem kick_eq (level : ℕ) : kick level = 608 / accDiv level := by
  have beyond : deadZone (accelGame 20).toInt = 608 := by decide
  rw [kick, thrust, beyond, Int.tdiv_eq_ediv_of_nonneg (by decide)]

theorem kick_cases (level : ℕ) : kick level = 2 ∨ kick level = 3 := by
  have divisor := accDiv_bounds level
  have atLeast : 2 ≤ 608 / accDiv level := by
    rw [Int.le_ediv_iff_mul_le (by omega)]
    omega
  have below : 608 / accDiv level < 4 := by
    rw [Int.ediv_lt_iff_lt_mul (by omega)]
    omega
  rw [kick_eq]
  omega

theorem reach_cases (level : ℕ) : reach level = 1 ∨ reach level = 3 := by
  have strength := kick_cases level
  rw [reach]
  omega

/-- The opposite sample has the opposite effect. -/
theorem thrust_opposite (level : ℕ) : thrust level (accelGame (-20)) = -kick level := by
  have beyond : deadZone (accelGame (-20)).toInt = -608 := by decide
  rw [thrust, beyond, Int.neg_tdiv, Int.tdiv_eq_ediv_of_nonneg (by decide), kick_eq]

theorem thrust_rest (level : ℕ) : thrust level (accelGame 0) = 0 := by
  have inside : deadZone (accelGame 0).toInt = 0 := by decide
  rw [thrust, inside, Int.zero_tdiv]

theorem damp_small (level : ℕ) {v : ℤ} (low : -3 ≤ v) (high : v ≤ 3) : damp level v = (v * 15).tdiv 16 := by
  have cap : 3 ≤ vmax level := by
    unfold vmax
    split_ifs <;> omega
  rw [damp, clamp, if_neg (by omega), if_neg (by omega)]

/-- Capped and damped, a kick is spent in three ticks. -/
theorem damp_kick (level : ℕ) {u : ℤ} (unit : u = -1 ∨ u = 0 ∨ u = 1) :
    damp level (u * kick level) = u * (kick level - 1) ∧
      damp level (u * (kick level - 1)) = u * (kick level - 2) ∧
      damp level (u * (kick level - 2)) = 0 := by
  rcases kick_cases level with slow | fast
  · rw [slow]
    rcases unit with rfl | rfl | rfl
    all_goals
      rw [damp_small level (by decide) (by decide), damp_small level (by decide) (by decide),
        damp_small level (by decide) (by decide)]
      decide
  · rw [fast]
    rcases unit with rfl | rfl | rfl
    all_goals
      rw [damp_small level (by decide) (by decide), damp_small level (by decide) (by decide),
        damp_small level (by decide) (by decide)]
      decide

/-! ## Samples played in turn -/

section Play

variable (level : ℕ) (l : Layout)

/-- The samples lead from one motion to the other, and no tick on the way reaches the hazard or the
goal. -/
inductive Leads : Motion → List Sample → Motion → Prop
  | rest (m : Motion) : Leads m [] m
  | tick {m m' : Motion} {s : Sample} {script : List Sample}
      (safe : hitRect (physics level l m s.1 s.2).x (physics level l m s.1 s.2).y l.hz = false)
      (short : hitRect (physics level l m s.1 s.2).x (physics level l m s.1 s.2).y goal = false)
      (later : Leads (physics level l m s.1 s.2) script m') : Leads m (s :: script) m'

/-- Played in turn, the samples take the ball to the goal and never to the hazard before. -/
def Wins : Motion → List Sample → Prop
  | _, [] => False
  | m, s :: script =>
    hitRect (physics level l m s.1 s.2).x (physics level l m s.1 s.2).y l.hz = false ∧
      (hitRect (physics level l m s.1 s.2).x (physics level l m s.1 s.2).y goal = true ∨
        Wins (physics level l m s.1 s.2) script)

variable {level l}

theorem Leads.trans {m m' m'' : Motion} {a b : List Sample} (first : Leads level l m a m')
    (second : Leads level l m' b m'') : Leads level l m (a ++ b) m'' := by
  induction first with
  | rest m => exact second
  | tick safe short _ ih => exact .tick safe short (ih second)

theorem Leads.wins {m m' : Motion} {a b : List Sample} (first : Leads level l m a m')
    (second : Wins level l m' b) : Wins level l m (a ++ b) := by
  induction first with
  | rest m => exact second
  | tick safe short _ ih => exact ⟨safe, Or.inr (ih second)⟩

/-- A tick whose moves are open along both axes. -/
theorem physics_open {m : Motion} {s : Sample} {nvx nvy : ℤ}
    (speedX : damp level (m.vx + thrust level s.1) = nvx)
    (speedY : damp level (m.vy - thrust level s.2) = nvy)
    (openX : nvx = 0 ∨ l.isWall (m.x + nvx) m.y = false)
    (openY : nvy = 0 ∨ l.isWall m.x (m.y + nvy) = false)
    (column : 12 ≤ m.x + nvx ∧ m.x + nvx ≤ 707) (line : 12 ≤ m.y + nvy ∧ m.y + nvy ≤ 467) :
    physics level l m s.1 s.2 = ⟨m.x + nvx, m.y + nvy, nvx, nvy⟩ := by
  have right : (hRes : ℤ) - 13 = 707 := rfl
  have bottom : (vRes : ℤ) - 13 = 467 := rfl
  have x : (if l.isWall (m.x + nvx) m.y then m.x else m.x + nvx) = m.x + nvx ∧
      (if l.isWall (m.x + nvx) m.y then 0 else nvx) = nvx := by
    rcases openX with rfl | free
    · simp
    · simp [free]
  have y : (if l.isWall m.x (m.y + nvy) then m.y else m.y + nvy) = m.y + nvy ∧
      (if l.isWall m.x (m.y + nvy) then 0 else nvy) = nvy := by
    rcases openY with rfl | free
    · simp
    · simp [free]
  simp only [physics, speedX, speedY, x, y, right, bottom, confine]
  rw [if_neg (by omega), if_neg (by omega), if_neg (by omega), if_neg (by omega)]

end Play

/-! ## The free corridor -/

/-- The strip above the wall area and the one right of it, down to the goal and above the hazard. -/
def Corridor (x y : ℤ) : Prop := 12 ≤ x ∧ x ≤ 707 ∧ 12 ≤ y ∧ y < 200 ∧ (y < 40 ∨ 690 < x)

section Corridor

variable {level : ℕ} {seed : BitVec 16} {x y u v : ℤ} {s : Sample}

theorem Corridor.area (here : Corridor x y) : 12 ≤ x ∧ x ≤ 707 ∧ 12 ≤ y ∧ y ≤ 467 := by
  unfold Corridor at here
  omega

theorem Corridor.isWall (here : Corridor x y) : (genLayout level seed).isWall x y = false := by
  unfold Corridor at here
  exact isWall_outside level seed (by omega) (by omega) (by omega)

theorem Corridor.safe (here : Corridor x y) : hitRect x y (genLayout level seed).hz = false := by
  unfold Corridor at here
  rw [Bool.eq_false_iff, Ne, hitRect_iff]
  simp only [genLayout, genHazard]
  omega

theorem above_goal (above : y ≤ 57) : hitRect x y goal = false := by
  rw [Bool.eq_false_iff, Ne, hitRect_iff]
  simp only [goal]
  omega

/-- The sample pushes the ball in the axis direction `(u, v)`. -/
structure Push (level : ℕ) (u v : ℤ) (s : Sample) : Prop where
  unitX : u = -1 ∨ u = 0 ∨ u = 1
  unitY : v = -1 ∨ v = 0 ∨ v = 1
  straight : u = 0 ∨ v = 0
  across : thrust level s.1 = u * kick level
  down : thrust level s.2 = -(v * kick level)

/-- The sample of a level board. -/
def rest : Sample := (accelGame 0, accelGame 0)

/-- A push and two ticks at rest. -/
def nudge (s : Sample) : List Sample := [s, rest, rest]

/-- A tick along one axis, at speed `b` after it. -/
theorem glide (seed : BitVec 16) {a b : ℤ} (straight : u = 0 ∨ v = 0)
    (speedX : damp level (u * a + thrust level s.1) = u * b)
    (speedY : damp level (v * a - thrust level s.2) = v * b) (area : 12 ≤ x ∧ x ≤ 707 ∧ 12 ≤ y ∧ y ≤ 467)
    (path : b = 0 ∨ Corridor (x + u * b) (y + v * b)) :
    physics level (genLayout level seed) ⟨x, y, u * a, v * a⟩ s.1 s.2 =
      ⟨x + u * b, y + v * b, u * b, v * b⟩ := by
  rcases path with rfl | there
  · simp only [mul_zero] at speedX speedY ⊢
    exact physics_open speedX speedY (Or.inl rfl) (Or.inl rfl) (by simp only; omega) (by simp only; omega)
  · have inside := there.area
    refine physics_open speedX speedY ?_ ?_ (by simp only; omega) (by simp only; omega)
    · rcases straight with rfl | rfl
      · exact Or.inl (zero_mul b)
      · rw [zero_mul, add_zero] at there
        exact Or.inr there.isWall
    · rcases straight with rfl | rfl
      · rw [zero_mul, add_zero] at there
        exact Or.inr there.isWall
      · exact Or.inl (zero_mul b)

/-- The three ticks of a nudge: full speed, one less, and standing. -/
theorem nudge_first (seed : BitVec 16) (push : Push level u v s) (area : 12 ≤ x ∧ x ≤ 707 ∧ 12 ≤ y ∧ y ≤ 467)
    (path : Corridor (x + u * (kick level - 1)) (y + v * (kick level - 1))) :
    physics level (genLayout level seed) ⟨x, y, 0, 0⟩ s.1 s.2 =
      ⟨x + u * (kick level - 1), y + v * (kick level - 1), u * (kick level - 1), v * (kick level - 1)⟩ := by
  have speedX : damp level (u * 0 + thrust level s.1) = u * (kick level - 1) := by
    rw [mul_zero, zero_add, push.across, (damp_kick level push.unitX).1]
  have speedY : damp level (v * 0 - thrust level s.2) = v * (kick level - 1) := by
    rw [mul_zero, zero_sub, push.down, neg_neg, (damp_kick level push.unitY).1]
  have tick := glide seed (x := x) (y := y) push.straight speedX speedY area (Or.inr path)
  rwa [mul_zero, mul_zero] at tick

theorem nudge_second (seed : BitVec 16) (push : Push level u v s) (area : 12 ≤ x ∧ x ≤ 707 ∧ 12 ≤ y ∧ y ≤ 467)
    (path : kick level - 2 = 0 ∨ Corridor (x + u * (kick level - 2)) (y + v * (kick level - 2))) :
    physics level (genLayout level seed) ⟨x, y, u * (kick level - 1), v * (kick level - 1)⟩
        rest.1 rest.2 =
      ⟨x + u * (kick level - 2), y + v * (kick level - 2), u * (kick level - 2), v * (kick level - 2)⟩ := by
  refine glide seed push.straight ?_ ?_ area path
  · rw [rest, thrust_rest, add_zero, (damp_kick level push.unitX).2.1]
  · rw [rest, thrust_rest, sub_zero, (damp_kick level push.unitY).2.1]

theorem nudge_third (seed : BitVec 16) (push : Push level u v s) (area : 12 ≤ x ∧ x ≤ 707 ∧ 12 ≤ y ∧ y ≤ 467) :
    physics level (genLayout level seed) ⟨x, y, u * (kick level - 2), v * (kick level - 2)⟩
      rest.1 rest.2 = ⟨x, y, 0, 0⟩ := by
  have speedX : damp level (u * (kick level - 2) + thrust level rest.1) = u * 0 := by
    rw [rest, thrust_rest, add_zero, (damp_kick level push.unitX).2.2, mul_zero]
  have speedY : damp level (v * (kick level - 2) - thrust level rest.2) = v * 0 := by
    rw [rest, thrust_rest, sub_zero, (damp_kick level push.unitY).2.2, mul_zero]
  have tick := glide seed (x := x) (y := y) push.straight speedX speedY area (Or.inl rfl)
  rwa [mul_zero, mul_zero, add_zero, add_zero] at tick

theorem reach_eq (level : ℕ) : reach level = (kick level - 1) + (kick level - 2) := by
  rw [reach]
  ring

/-- A nudge inside the corridor moves the ball by its reach and leaves it standing. -/
theorem nudge_leads (seed : BitVec 16) (push : Push level u v s) (area : 12 ≤ x ∧ x ≤ 707 ∧ 12 ≤ y ∧ y ≤ 467)
    (path : ∀ j, 1 ≤ j → j ≤ reach level → Corridor (x + u * j) (y + v * j) ∧ y + v * j ≤ 57) :
    Leads level (genLayout level seed) ⟨x, y, 0, 0⟩ (nudge s)
      ⟨x + u * reach level, y + v * reach level, 0, 0⟩ := by
  have strength := kick_cases level
  have far := reach_eq level
  obtain ⟨there, above⟩ := path (kick level - 1) (by omega) (by omega)
  obtain ⟨done, above'⟩ := path (reach level) (by omega) le_rfl
  have endpoint : x + u * (kick level - 1) + u * (kick level - 2) = x + u * reach level ∧
      y + v * (kick level - 1) + v * (kick level - 2) = y + v * reach level := by
    rw [far]
    constructor <;> ring
  have first := nudge_first seed push area there
  have second := nudge_second seed push there.area (Or.inr (by rwa [endpoint.1, endpoint.2]))
  have third := nudge_third seed push done.area
  rw [endpoint.1, endpoint.2] at second
  apply Leads.tick
  · rw [first]
    exact there.safe
  · rw [first]
    exact above_goal above
  rw [first]
  apply Leads.tick
  · rw [second]
    exact done.safe
  · rw [second]
    exact above_goal above'
  rw [second]
  apply Leads.tick
  · rw [third]
    exact done.safe
  · rw [third]
    exact above_goal above'
  rw [third]
  exact .rest _

/-- Nudges in a row. -/
theorem nudges_lead (seed : BitVec 16) (push : Push level u v s) (k : ℕ)
    (area : 12 ≤ x ∧ x ≤ 707 ∧ 12 ≤ y ∧ y ≤ 467)
    (path : ∀ j, 1 ≤ j → j ≤ k * reach level → Corridor (x + u * j) (y + v * j) ∧ y + v * j ≤ 57) :
    Leads level (genLayout level seed) ⟨x, y, 0, 0⟩ (List.replicate k (nudge s)).flatten
      ⟨x + u * (k * reach level), y + v * (k * reach level), 0, 0⟩ := by
  have far := reach_cases level
  have forward : 0 < reach level := by omega
  induction k with
  | zero => simpa using Leads.rest _
  | succ k ih =>
    have longer : ((k + 1 : ℕ) : ℤ) * reach level = k * reach level + reach level := by
      push_cast
      ring
    rw [longer] at path ⊢
    have before := ih fun j first last => path j first (by omega)
    have inside : 12 ≤ x + u * (k * reach level) ∧ x + u * (k * reach level) ≤ 707 ∧
        12 ≤ y + v * (k * reach level) ∧ y + v * (k * reach level) ≤ 467 := by
      cases k with
      | zero => simpa using area
      | succ k => exact (path ((k + 1 : ℕ) * reach level) (by push_cast; nlinarith) (by omega)).1.area
    have last := nudge_leads seed push inside fun j first last => by
      have there := path (k * reach level + j) (by nlinarith) (by omega)
      rwa [mul_add, mul_add, ← add_assoc, ← add_assoc] at there
    rw [List.replicate_succ', List.flatten_append, List.flatten_singleton]
    have whole := before.trans last
    rwa [add_assoc x, add_assoc y, ← mul_add, ← mul_add] at whole

end Corridor

/-! ## The way to the goal -/

def up : Sample := (accelGame 0, accelGame 20)
def right : Sample := (accelGame 20, accelGame 0)
def down : Sample := (accelGame 0, accelGame (-20))

theorem up_push (level : ℕ) : Push level 0 (-1) up :=
  ⟨by decide, by decide, by decide, by rw [up, thrust_rest, zero_mul], by rw [up, neg_one_mul, neg_neg]; rfl⟩

theorem right_push (level : ℕ) : Push level 1 0 right :=
  ⟨by decide, by decide, by decide, by rw [right, one_mul]; rfl, by rw [right, thrust_rest, zero_mul, neg_zero]⟩

theorem down_push (level : ℕ) : Push level 0 1 down :=
  ⟨by decide, by decide, by decide, by rw [down, thrust_rest, zero_mul], by rw [down, thrust_opposite, one_mul]⟩

theorem on_goal : hitRect 691 58 goal = true := by decide

/-- The last nudge reaches the goal with its first tick on a slow level, with its second on a fast one. -/
theorem last_nudge (level : ℕ) (seed : BitVec 16) :
    Wins level (genLayout level seed) ⟨691, 58 - reach level, 0, 0⟩ (nudge down) := by
  have strength := kick_cases level
  have far := reach_eq level
  have there : Corridor (691 + 0 * (kick level - 1)) (58 - reach level + 1 * (kick level - 1)) := by
    unfold Corridor
    omega
  have first := nudge_first seed (down_push level) (by omega) there
  have column : (691 + 0 * (kick level - 1) : ℤ) = 691 := by ring
  have line : 58 - reach level + 1 * (kick level - 1) = 58 - (kick level - 2) := by omega
  rw [column, line] at first there
  refine ⟨by rw [first]; exact there.safe, ?_⟩
  rw [first]
  rcases strength with slow | fast
  · rw [slow]
    exact Or.inl on_goal
  · right
    have done : Corridor (691 + 0 * (kick level - 2)) (58 - (kick level - 2) + 1 * (kick level - 2)) := by
      unfold Corridor
      omega
    have second := nudge_second seed (down_push level) (by omega) (Or.inr done)
    have column' : (691 + 0 * (kick level - 2) : ℤ) = 691 := by ring
    have line' : 58 - (kick level - 2) + 1 * (kick level - 2) = 58 := by ring
    rw [column', line'] at second done
    refine ⟨by rw [second]; exact done.safe, Or.inl ?_⟩
    rw [second]
    exact on_goal

/-- Up out of the wall area, right past it, and down onto the goal. -/
def wayToGoal (level : ℕ) : List Sample :=
  nudge up ++ ((List.replicate (651 / reach level).toNat (nudge right)).flatten ++
    ((List.replicate (18 / reach level).toNat (nudge down)).flatten ++ nudge down))

theorem wayToGoal_wins (level : ℕ) (seed : BitVec 16) :
    Wins level (genLayout level seed) ⟨40, 40, 0, 0⟩ (wayToGoal level) := by
  have far := reach_cases level
  have columns : ((651 / reach level).toNat : ℤ) * reach level = 651 := by
    rcases far with one | three
    · rw [one]; rfl
    · rw [three]; rfl
  have lines : ((18 / reach level).toNat : ℤ) * reach level = 18 := by
    rcases far with one | three
    · rw [one]; rfl
    · rw [three]; rfl
  have first := nudge_leads seed (up_push level) (x := 40) (y := 40) (by decide) fun j _ _ => by
    unfold Corridor
    omega
  have second := nudges_lead seed (right_push level) (651 / reach level).toNat
    (x := 40 + 0 * reach level) (y := 40 + -1 * reach level) (by omega) fun j _ _ => by
      unfold Corridor
      omega
  rw [columns] at second
  have third := nudges_lead seed (down_push level) (18 / reach level).toNat
    (x := 40 + 0 * reach level + 1 * 651) (y := 40 + -1 * reach level + 0 * 651) (by omega)
    fun j _ _ => by
      unfold Corridor
      omega
  rw [lines] at third
  apply first.wins
  apply second.wins
  apply third.wins
  have last := last_nudge level seed
  have column : (40 + 0 * reach level + 1 * 651 + 0 * 18 : ℤ) = 691 := by ring
  have line : (40 + -1 * reach level + 0 * 651 + 1 * 18 : ℤ) = 58 - reach level := by ring
  rwa [column, line]

end Telecran.Model
