import Telecran.Proofs.AdxlPlan
import Telecran.Proofs.AdxlTicks

/-! # Ready means configured

Whatever the slave answers, the accelerometer master makes its three init writes in order, retries
each until all of its bytes are acknowledged, writes nothing else, and reports ready only then. The
transcript is the one of a scribe that listens to the lines on every clock.
-/

namespace Telecran.Soundness.Configured

open Machine Model Bus Adxl Adxl.Fsm

/-! ## What has been said at any time -/

/-- The frames follow the script, and so does the open one. -/
structure Sound (t : Transcript) : Prop where
  follows : Follows 0x3A script t.frames
  pending : ∀ words, t.current = some words → Pending 0x3A (remaining 0x3A script t.frames) words

section Sound

variable {t : Transcript} {k : ℕ} {words : List Word} {w : Write}

private theorem sound_free (wrote : Wrote t k none) : Sound t :=
  ⟨wrote.follows, fun _ said => nomatch wrote.current.symm.trans said⟩

private theorem sound_attempt {acked : Bool} (wrote : Wrote t k (some words)) (bound : k < 3)
    (chosen : (w.reg, w.val) = initWrite k) (attempt : Attempt 0x3A w words acked) : Sound t := by
  refine ⟨wrote.follows, fun words' said => ?_⟩
  obtain rfl : words = words' := Option.some.inj (wrote.current.symm.trans said)
  rw [wrote.remaining, script_drop bound chosen]
  exact ⟨acked, attempt⟩

/-- What a checkpoint of the plan says about the script. -/
structure Checkpoint (st : State) (t : Transcript) : Prop where
  sound : Sound t
  made : late st = true → remaining 0x3A script t.frames = []

private theorem checkpoint_early {st : State} (sound : Sound t) (early : late st = false) :
    Checkpoint st t :=
  ⟨sound, fun here => absurd (early.symm.trans here) Bool.false_ne_true⟩

private theorem checkpoint_free {st : State} (wrote : Wrote t 3 none) : Checkpoint st t :=
  ⟨sound_free wrote, fun _ => wrote.remaining⟩

private theorem checkpoint_open {st : State} (wrote : Wrote t 3 (some words)) (harmless : Harmless words) :
    Checkpoint st t := by
  refine ⟨⟨wrote.follows, fun words' said => ?_⟩, fun _ => wrote.remaining⟩
  obtain rfl : words = words' := Option.some.inj (wrote.current.symm.trans said)
  rw [wrote.remaining]
  exact harmless

theorem plan_checkpoint {v : View} (plan : Plan v t) : Checkpoint v.st t := by
  obtain ⟨st, ackNack, initStep, reg, val⟩ := v
  have short {words : List Word} (wrote : Wrote t 3 (some words)) (length : words.length ≤ 2) :
      Checkpoint st t := checkpoint_open wrote (Or.inl length)
  have attempt {words : List Word} {acked : Bool} (wrote : Wrote t initStep (some words))
      (chosen : Chosen ⟨st, ackNack, initStep, reg, val⟩)
      (attempt : Attempt 0x3A ⟨reg, val⟩ words acked) : Sound t :=
    sound_attempt wrote chosen.1 chosen.2 attempt
  cases st with
  | boot => exact checkpoint_early (sound_free plan) rfl
  | iWStart | iNext => exact checkpoint_early (sound_free plan.2) rfl
  | iWAddr => exact checkpoint_early (attempt plan.2 plan.1 .opened) rfl
  | iWReg => exact checkpoint_early (attempt plan.2 plan.1 (.address _)) rfl
  | iWVal => exact checkpoint_early (attempt plan.2 plan.1 (.register _)) rfl
  | iWStop =>
    obtain ⟨chosen, wrote | ⟨-, wrote⟩⟩ := plan
    · exact checkpoint_early (attempt wrote chosen (.value _)) rfl
    · exact checkpoint_early (sound_free wrote) rfl
  | idStartw | idle | rStartw => exact checkpoint_free plan
  | idAddrw | idAddrr | rAddrw | rAddrr => exact short plan (by simp)
  | idReg | rReg =>
    obtain ⟨w, wrote⟩ := plan
    exact short wrote (by simp)
  | idRepstart | rRepstart =>
    obtain ⟨w, w', wrote⟩ := plan
    exact short wrote (by simp)
  | idStop | rStop =>
    obtain ended | ⟨acked, more, wrote⟩ := plan
    · exact checkpoint_free ended
    · exact checkpoint_open wrote (harmless_read ..)
  | _ =>
    obtain ⟨acked, more, wrote⟩ := plan
    exact checkpoint_open wrote (harmless_read ..)

end Sound

section Watched

variable {w : Fsm × Scribe} {t : Transcript}

theorem sound_of_watched (watched : Watched w t) : Sound w.2.transcript := by
  obtain ⟨v, -, plan⟩ := watched.began
  rcases watched.tracks.transcript with same | ⟨started, plan'⟩
  · rw [same]
    exact (plan_checkpoint plan).sound
  · rw [started]
    exact (plan_checkpoint plan').sound

theorem made_of_watched (watched : Watched w t) (here : late w.1.st = true) :
    remaining 0x3A script w.2.transcript.frames = [] := by
  obtain ⟨v, same, plan⟩ := watched.began
  have made := (plan_checkpoint plan).made (same ▸ here)
  rcases watched.tracks.transcript with same | ⟨started, -⟩
  · rwa [same]
  · rw [started]
    exact remaining_append_nil made _

end Watched

/-! ## Refused writes are retried -/

/-- The states still to come until a frame is over or the writes are made, with a frame open or not. -/
def rank : State → Bool → ℕ
  | .boot, _ => 8
  | .iWStop, false => 7
  | .iNext, _ => 6
  | .iWStart, _ => 5
  | .iWAddr, _ => 4
  | .iWReg, _ => 3
  | .iWVal, _ => 2
  | .iWStop, true => 1
  | _, _ => 0

/-- Since a checkpoint of rank `r` with `n` frames, one more is over or the rank is lower. -/
def Nearer (r n : ℕ) (v : View) (t : Transcript) : Prop :=
  n < t.frames.length ∨ rank v.st t.current.isSome < r

private theorem stop_grows {t : Transcript} {k : ℕ} {words : List Word} (wrote : Wrote t k (some words)) :
    t.frames.length < t.stop.frames.length := by
  simp [Transcript.stop, Transcript.closed, wrote.current]

theorem nearer_high {s : Fsm} {t : Transcript} {i : TickIn} (plan : Plan s.view t)
    (ready : s.ll = .none) (early : late s.st = false) (booted : i.bootDone = true) :
    Promises (Nearer (rank s.st t.current.isSome) t.frames.length) (s.high i) t := by
  obtain ⟨st, ll, sclOe, sdaOe, txByte, rxByte, bitI, ackNack⟩ := s
  obtain rfl : ll = .none := ready
  cases st with
  | boot =>
    simp only [high, booted, if_true]
    exact Or.inr (by simp [rank, view])
  | iWStart => exact Or.inr (Nat.lt_succ_self 4)
  | iWAddr => exact fun nack => Or.inr (Nat.lt_succ_self 3)
  | iWReg =>
    cases ackNack with
    | true => exact Or.inl (stop_grows plan.2)
    | false => exact fun nack => Or.inr (Nat.lt_succ_self 2)
  | iWVal =>
    cases ackNack with
    | true => exact Or.inl (stop_grows plan.2)
    | false =>
      refine fun nack => Or.inr ?_
      simp [rank, back, high, Fsm.transmit, Transcript.word, plan.2.current]
  | iWStop =>
    obtain ⟨-, wrote | ⟨-, wrote⟩⟩ := plan
    · exact Or.inl (stop_grows wrote)
    · exact Or.inr (by simp [rank, back, high, Fsm.stop, wrote.current])
  | iNext =>
    simp only [high]
    split_ifs
    · exact Or.inr (by simp [rank, view])
    · exact Or.inr (by simp [rank, view])
    · exact Or.inr (by simp [rank, view])
  | _ => simp [late] at early

section Retries

variable {w : Fsm × Scribe} {t : Transcript} {input : ℕ → TickIn}

theorem frames_run (w : Fsm × Scribe) (input : ℕ → TickIn) (n : ℕ) :
    w.2.transcript.frames <+: (run watch w input n).2.transcript.frames := by
  induction n with
  | zero => exact List.prefix_rfl
  | succ n ih => exact ih.trans (Scribe.frames_grow ..)

/-- Another frame is over, or the writes are made. -/
def Advances (w : Fsm × Scribe) (input : ℕ → TickIn) : Prop :=
  ∃ n, w.2.transcript.frames.length < (run watch w input n).2.transcript.frames.length ∨
    late (run watch w input n).1.st = true

theorem Advances.later {n : ℕ} (advances : Advances (run watch w input n) fun k => input (n + k)) :
    Advances w input := by
  obtain ⟨k, done⟩ := advances
  rw [← run_add] at done
  exact ⟨n + k, done.imp_left (frames_run w input n).length_le.trans_lt⟩

theorem advances_of_ready (watched : Watched w t) (booted : ∀ n, (input n).bootDone = true)
    (ready : w.1.ll = .none) : Advances w input := by
  induction steps : rank w.1.st w.2.transcript.current.isSome using Nat.strong_induction_on
    generalizing w t input with
  | _ r ih =>
    cases early : late w.1.st with
    | true => exact ⟨0, Or.inr early⟩
    | false =>
      have hears := watched.tracks.hears ready
      have plan := watched.tracks.here ready
      have next := watched.high ready (input 0)
      have tracks := (plan_high plan ready hears (input 0)).and (nearer_high plan ready early (booted 0))
      obtain ⟨t₁, watched₁⟩ := watched.step (input 0)
      rw [next] at watched₁
      obtain ⟨k, t', ended, tracks', -⟩ := tracks.ends (w := (w.1.high (input 0), w.2))
        watched₁.knows fun n => input (1 + n)
      obtain ⟨t₂, watched'⟩ := watched₁.run (fun n => input (1 + n)) k
      have whole : run watch w input (1 + k) = _ := (run_add 1 k).trans (by rw [run_succ, run_zero, next])
      rw [← whole] at ended tracks' watched'
      rcases (tracks'.here ended).2 with more | lower
      · refine ⟨1 + k, Or.inl ?_⟩
        rwa [(tracks'.hears ended).transcript, hears.transcript]
      · refine Advances.later (n := 1 + k) (ih _ ?_ watched' (fun n => booted _) ended rfl)
        rwa [(tracks'.hears ended).transcript, ← steps, hears.transcript]

theorem advances (watched : Watched w t) (booted : ∀ n, (input n).bootDone = true) :
    Advances w input := by
  obtain ⟨k, -, ready, -, -⟩ := watched.tracks.ends watched.knows input
  obtain ⟨t', watched'⟩ := watched.run input k
  exact (advances_of_ready watched' (fun n => booted _) ready).later

end Retries

/-! ## On clocks -/

section Clocks

variable (g : Generics) (slave : ℕ → Bool)

/-- A scribe that hears the lines and what the master samples of SDA on every clock. -/
def heard : ℕ → Scribe
  | 0 => .fresh
  | n + 1 => (heard n).hear (after g slave (n + 1)).fsm.level (after g slave n).sdaIn

/-- What has been said on the bus before clock `n`. -/
def said (n : ℕ) : Transcript := (heard g slave n).transcript

/-- The output `o_ready` on clock `n`. -/
def ready (n : ℕ) : Bool := (after g slave n).fsm.readyI

/-- The main process and the scribe on clock `n`. -/
def watching (n : ℕ) : Fsm × Scribe := ((after g slave n).fsm, heard g slave n)

private theorem watching_step {n : ℕ} (knows : (heard g slave n).Knows (after g slave n).fsm.level) :
    watching g slave (n + 1) = if (Divider.after g.cDiv n).tick then
      watch (watching g slave n) (after g slave n).tickIn else watching g slave n := by
  have fsm := fsm_succ g slave n
  rw [watching, heard]
  split_ifs at fsm ⊢ with tick
  · rw [fsm]
    rfl
  · rw [fsm, knows.hear]
    rfl

theorem watched_clock (n : ℕ) : ∃ t, Watched (watching g slave n) t := by
  induction n with
  | zero => exact ⟨_, Watched.reset⟩
  | succ n ih =>
    obtain ⟨t, watched⟩ := ih
    rw [watching_step g slave watched.knows]
    split_ifs
    · exact watched.step _
    · exact ⟨t, watched⟩

theorem watching_succ (n : ℕ) : watching g slave (n + 1) = if (Divider.after g.cDiv n).tick then
    watch (watching g slave n) (after g slave n).tickIn else watching g slave n := by
  obtain ⟨t, watched⟩ := watched_clock g slave n
  exact watching_step g slave watched.knows

/-- On the clock of tick `k` the scribe has heard the ticks before it. -/
theorem watching_atTick (k : ℕ) : watching g slave (g.cDiv * (k + 1)) =
    run watch (.reset, .fresh) (tickInputs g slave) k := by
  have projected := gated_nth (watching_succ g slave) (Divider.tick_infinite g.cDiv_pos) k
  simp only [Divider.nth_tick g.cDiv_pos] at projected
  exact projected

theorem said_grow {m n : ℕ} (later : m ≤ n) :
    (said g slave m).frames <+: (said g slave n).frames := by
  induction later with
  | refl => exact List.prefix_rfl
  | step _ ih => exact ih.trans (Scribe.frames_grow ..)

/-- The boot wait ends. -/
theorem booted_eventually : ∃ c, ∀ n ≥ c, (after g slave n).bootDone = true := by
  rcases Nat.eq_zero_or_pos g.tbootDiv with none | wait
  · refine ⟨1, fun n later => ?_⟩
    induction later with
    | refl => simp [after, clock, Adxl.reset, run_succ, none]
    | step _ ih => simp [after_succ, clock, ih]
  · refine ⟨g.tbootDiv, fun n later => ?_⟩
    rw [(bootDone_after g slave wait n).1, decide_eq_true later]

/-- As long as a write is to be made, another frame follows. -/
theorem another_frame {n : ℕ} (todo : remaining 0x3A script (said g slave n).frames ≠ []) :
    ∃ m > n, (said g slave n).frames.length < (said g slave m).frames.length := by
  obtain ⟨c, booted⟩ := booted_eventually g slave
  have clocks (k : ℕ) : k ≤ g.cDiv * (k + 1) :=
    (Nat.le_succ k).trans (Nat.le_mul_of_pos_left _ g.cDiv_pos)
  obtain ⟨t, watched⟩ := watched_clock g slave (g.cDiv * (max n c + 1))
  have late (k : ℕ) : (tickInputs g slave (max n c + k)).bootDone = true :=
    booted _ ((le_max_right n c).trans ((Nat.le_add_right ..).trans (clocks _)))
  obtain ⟨k, done⟩ := advances watched late
  rw [watching_atTick, ← run_add, ← watching_atTick, ← watching_atTick g slave (max n c + k)] at done
  have before : n ≤ g.cDiv * (max n c + 1) := (le_max_left n c).trans (clocks _)
  have after : n ≤ g.cDiv * (max n c + k + 1) :=
    (le_max_left n c).trans ((Nat.le_add_right ..).trans (clocks _))
  have grown : (said g slave n).frames.length < (said g slave (g.cDiv * (max n c + k + 1))).frames.length := by
    rcases done with more | made
    · exact (said_grow g slave before).length_le.trans_lt more
    · refine lt_of_le_of_ne (said_grow g slave after).length_le fun same => todo ?_
      obtain ⟨t', watched'⟩ := watched_clock g slave (g.cDiv * (max n c + k + 1))
      rw [(said_grow g slave after).eq_of_length same]
      exact made_of_watched watched' made
  refine ⟨_, lt_of_le_of_ne after ?_, grown⟩
  rintro same
  rw [← same] at grown
  exact lt_irrefl _ grown

/-- Ready is reported only after the writes. -/
theorem remaining_of_ready {n : ℕ} (done : ready g slave n = true) :
    remaining 0x3A script (said g slave n).frames = [] := by
  obtain ⟨t, watched⟩ := watched_clock g slave n
  exact made_of_watched watched (watched.phases.ready done)

theorem ready_mono {m n : ℕ} (later : m ≤ n) (done : ready g slave m = true) :
    ready g slave n = true := by
  induction later with
  | refl => exact done
  | @step n _ ih =>
    obtain ⟨t, watched⟩ := watched_clock g slave n
    rw [ready, fsm_succ]
    split_ifs
    · exact watched.phases.ready_tick _ ih
    · exact ih

theorem sound_said (n : ℕ) : Sound (said g slave n) := by
  obtain ⟨t, watched⟩ := watched_clock g slave n
  exact sound_of_watched watched

theorem attempted_of_said {n : ℕ} {words : List Word} (spoken : (said g slave n).Said words) :
    Attempted 0x3A script words := by
  obtain ⟨follows, pending⟩ := sound_said g slave n
  rcases spoken with ⟨f, member, rfl⟩ | current
  · exact follows.attempted member
  · exact .of_pending (fun _ => mem_of_mem_remaining) (pending words current)

/-- Ready is reported only after the three init writes have been made in order with every byte
acknowledged; each is attempted again and again until it is made, before any later one; nothing
else is ever written; and ready stays. -/
theorem ready_configured :
    (∀ n, ready g slave n = true → (script.map (Write.made 0x3A)).Sublist (said g slave n).frames) ∧
    (∀ n, Follows 0x3A script (said g slave n).frames ∧ ∀ words, (said g slave n).current = some words →
      Pending 0x3A (remaining 0x3A script (said g slave n).frames) words) ∧
    (∀ n, remaining 0x3A script (said g slave n).frames ≠ [] →
      ∃ m > n, (said g slave n).frames.length < (said g slave m).frames.length) ∧
    (∀ n words, (said g slave n).Said words → ∀ x r v more,
      words.map Word.byte = x :: r :: v :: more → x.getLsbD 0 = false →
        x = 0x3A ∧ ⟨r, v⟩ ∈ script ∧ more = []) ∧
    ∀ m n, m ≤ n → ready g slave m = true → ready g slave n = true := by
  refine ⟨fun n done => ?_, fun n => ?_, fun n => another_frame g slave, ?_, ?_⟩
  · exact made_of_done (remaining_of_ready g slave done)
  · exact ⟨(sound_said g slave n).follows, (sound_said g slave n).pending⟩
  · intro n words spoken x r v more bytes writes
    exact (attempted_of_said g slave spoken).write bytes writes
  · exact fun m n => ready_mono g slave

/-- The first address is refused when no slave answers. -/
example : (said ⟨8, 1, by decide⟩ (fun _ => true) 80).frames = [⟨[⟨0x3A, false⟩], true⟩] := by
  decide +kernel

end Clocks

end Telecran.Soundness.Configured
