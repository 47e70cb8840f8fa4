import Chip8.Proofs.Machine.WellFormed
import Chip8.Proofs.Play.Cadence
import Chip8.Proofs.Play.Rounds

/-!
# The schedule of a session

The settings of a session tell once and for all whether its cadences are ever done ticking.  Both
start with the period of their rate and keep it, and after each turn less than a period is left
(`Cadence.OfRate`).  So as long as no turn takes more than a second:

    s'.timers.Answers elapsed ↔ the timers tick at most every nanosecond
    s'.recorder.Answers elapsed ↔ the recorder ticks at most every nanosecond
                                                                           (answers_of_rounds)

A faster rate passes for a setting all the same: a second cut by it is no time at all, and a turn
that gets as far as its cadences never ends (`loops_of_fast_timers`).
-/

namespace Chip8

/-- A cadence that has the period of a rate, and has ticked whenever it was due. -/
structure Cadence.OfRate (c : Cadence) (rate : UInt32) : Prop where
  period : c.period = (perSecond rate).period
  rest : c.accumulated < c.period ∨ c.period = 0

namespace Cadence.OfRate

variable {c c' : Cadence} {rate : UInt32}

theorem perSecond (rate : UInt32) : (Cadence.perSecond rate).OfRate rate where
  period := rfl
  rest := (Nat.eq_zero_or_pos _).symm

theorem advance (h : c.OfRate rate) {elapsed ticks : Nat}
    (hadvance : c.advance elapsed = some (ticks, c')) : c'.OfRate rate where
  period := (period_advance hadvance).trans h.period
  rest := .inl (accumulated_lt_period hadvance)

theorem answers_iff (h : c.OfRate rate) (hrate : rate.toNat ≠ 0) {elapsed : Nat}
    (short : elapsed ≤ second) : c.Answers elapsed ↔ rate.toNat ≤ second := by
  rw [Cadence.answers_iff h.rest short, h.period]
  exact period_perSecond_pos_iff hrate

end Cadence.OfRate

namespace Session

/-- Both cadences have the rates of the settings. -/
structure Scheduled (s : Session) (settings : Settings) : Prop where
  timers : s.timers.OfRate settings.timerUpdatesPerSecond
  recorder : s.recorder.OfRate settings.rewindFrequency

section
variable {settings : Settings} {s s' : Session} {outcome : Outcome}

theorem Scheduled.comes (h : s.Scheduled settings) {r : Round} (comes : s.Comes r outcome s') :
    s'.Scheduled settings := by
  rcases comes.advance with ⟨htimers, hrecorder⟩ | ⟨ticks, recordings, htimers, hrecorder⟩
  · constructor
    · rw [htimers]
      exact h.timers
    · rw [hrecorder]
      exact h.recorder
  · exact ⟨h.timers.advance htimers, h.recorder.advance hrecorder⟩

theorem Scheduled.rounds (h : s.Scheduled settings) {rounds : List Round} {outcomes : List Outcome}
    (hrun : s.rounds rounds = some (outcomes, s')) : s'.Scheduled settings := by
  induction rounds generalizing s outcomes with
  | nil =>
    cases hrun
    exact h
  | cons r later ih =>
    obtain ⟨outcome, s₁, after, hstep, hlater, -⟩ := rounds_cons_eq_some_iff.1 hrun
    exact ih (h.comes (comes_of_step hstep)) hlater

variable {machine : Machine} {slots : Slots} {disk : Disk}

theorem scheduled_start (hstart : start settings machine slots disk = some (.ok s)) :
    s.Scheduled settings := by
  obtain ⟨-, -, -, -, -, htimers, hrecorder⟩ := start_eq_some_ok hstart
  constructor
  · rw [htimers]
    exact .perSecond _
  · rw [hrecorder]
    exact .perSecond _

/-! ## Main statement -/

/-- However a session has been played, the tick loop of a cadence comes to its end within a second
of any turn, before its counter overflows, exactly if the rate of the settings is one tick each
nanosecond at most.  Where both rates are, scheduling never keeps a turn from its outcome; where one
is not, it does so in every turn that no command ends. -/
theorem answers_of_rounds (hstart : start settings machine slots disk = some (.ok s))
    {rounds : List Round} {outcomes : List Outcome} (hrun : s.rounds rounds = some (outcomes, s'))
    (r : Round) (short : r.elapsed ≤ second) :
    (s'.timers.Answers r.elapsed ↔ settings.timerUpdatesPerSecond.toNat ≤ second) ∧
    (s'.recorder.Answers r.elapsed ↔ settings.rewindFrequency.toNat ≤ second) ∧
    (s'.step r.poll r.elapsed r.broken = none ↔
      s'.told r = none ∨ ∃ s₁, s'.told r = some (.running, s₁) ∧
        (second < settings.timerUpdatesPerSecond.toNat ∨
          second < settings.rewindFrequency.toNat ∨
          r.poll.rewinding = false ∧ s₁.machine.cycle = none)) := by
  have hzero := (start_eq_some_ok hstart).1
  have scheduled := (scheduled_start hstart).rounds hrun
  have timers := scheduled.timers.answers_iff
    (Settings.valueOf_ne_zero hzero .timerUpdatesPerSecond) short
  have recorder := scheduled.recorder.answers_iff
    (Settings.valueOf_ne_zero hzero .rewindFrequency) short
  refine ⟨timers, recorder, ?_⟩
  rw [Cadence.answers_iff_advance] at timers recorder
  rw [step_eq_none_iff, ← Nat.not_le, ← Nat.not_le, ← timers, ← recorder,
    Classical.not_not, Classical.not_not]

end

/-- An instruction, and then a second with the timers and the recorder at one tick each nanosecond. -/
theorem answers_of_rounds_fastest :
    let settings : Settings :=
      { Settings.default with timerUpdatesPerSecond := 1000000000, rewindFrequency := 1000000000 }
    let machine := Machine.ofSeed ⟨false, false⟩ 3
    let r : Round := ⟨⟨.released, [], false⟩, second, none⟩
    ∃ s outcome s', start settings machine ⟨⟨"saves"⟩, "pong", 6, 0⟩ .blank = some (.ok s) ∧
      s.rounds [r] = some ([outcome], s') ∧ r.elapsed ≤ second ∧
      s'.timers.Answers r.elapsed ∧ s'.recorder.Answers r.elapsed := by
  intro settings machine r
  have hzero : settings.firstZero? = none := by decide +kernel +zetaReduce
  obtain ⟨s, hstart⟩ := exists_start hzero (by decide) machine ⟨⟨"saves"⟩, "pong", 6, 0⟩ .blank
  have short : r.elapsed ≤ second := Nat.le_refl _
  have fit : (s.machine.setKeypad .released).WellFormed := by
    rw [(start_eq_some_ok hstart).2.1]
    exact { Machine.wellFormed_fresh ⟨false, false⟩ (.ofSeed 3) with }
  obtain ⟨result, m, hcycle, -⟩ := fit.exists_cycle
  have told : s.told r = some (.running, s.withKeys .released) := rfl
  have goes : s.step r.poll r.elapsed r.broken ≠ none := by
    have hnone : s.rounds [] = some ([], s) := rfl
    rw [Ne, (answers_of_rounds hstart hnone r short).2.2, told]
    rintro (h | ⟨s₁, h, fast | fast | ⟨-, halted⟩⟩)
    · cases h
    · exact absurd fast (by decide)
    · exact absurd fast (by decide)
    · cases h
      have never : none = some (result, m) := halted.symm.trans hcycle
      cases never
  obtain ⟨⟨outcome, s'⟩, hstep⟩ := Option.ne_none_iff_exists'.1 goes
  have hrun : s.rounds [r] = some ([outcome], s') :=
    rounds_cons_eq_some_iff.2 ⟨outcome, s', [], hstep, rfl, rfl⟩
  obtain ⟨timers, recorder, -⟩ := answers_of_rounds hstart hrun r short
  exact ⟨s, outcome, s', hstart, hrun, short, timers.2 (by decide), recorder.2 (by decide)⟩

/-- One tick a second more, and the loop of the timers goes on for ever, however little time has
passed. -/
theorem loops_of_fast_timers :
    let settings : Settings := { Settings.default with timerUpdatesPerSecond := 1000000001 }
    settings.firstZero? = none ∧
    ∃ s, start settings (.ofSeed ⟨false, false⟩ 3) ⟨⟨"saves"⟩, "pong", 6, 0⟩ .blank =
        some (.ok s) ∧
      (∀ n, ∃ c, (s.timers.wait 0).tickTimes? n = some c) ∧ ¬s.timers.Answers 0 ∧
      s.step ⟨.released, [], false⟩ 0 none = none := by
  intro settings
  have hzero : settings.firstZero? = none := by decide +kernel +zetaReduce
  obtain ⟨s, hstart⟩ := exists_start hzero (by decide) (.ofSeed ⟨false, false⟩ 3)
    ⟨⟨"saves"⟩, "pong", 6, 0⟩ .blank
  obtain ⟨-, -, -, -, -, htimers, -⟩ := start_eq_some_ok hstart
  have still : s.timers.period = 0 := by
    rw [htimers]
    decide
  have stuck : s.timers.advance 0 = none := by
    simp [Cadence.advance, still]
  refine ⟨hzero, s, hstart, ?_, ?_, ?_⟩
  · intro n
    exact ⟨_, Cadence.tickTimes?_eq_some_iff.2 ⟨by simp [Cadence.wait, still], rfl⟩⟩
  · rw [Cadence.answers_iff_advance]
    exact Classical.not_not.2 stuck
  · exact step_eq_none_iff (r := ⟨⟨.released, [], false⟩, 0, none⟩).2
      (.inr ⟨_, rfl, .inl stuck⟩)

end Session

end Chip8
