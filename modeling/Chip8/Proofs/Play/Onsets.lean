import Chip8.Proofs.Play.Ending

/-!
# Onsets of the tone

At its end a turn that goes on brings the tone in line with the sound timer, and nothing else touches
it: a turn that the player quits and one that a fault ends come to their end before that.  So over any
turns of a session that began in silence

    s'.tone.starts = onsets false (s.soundings rounds)

where `soundings` tells for each turn that went on whether the sound timer was left above zero, and
`onsets` counts where that comes after a turn that left it at zero, or first (`starts_rounds`).
-/

namespace Chip8

/-- How often the tone is wanted where it was not wanted before. -/
def onsets (before : Bool) : List Bool → Nat
  | [] => 0
  | now :: later => (if now && !before then 1 else 0) + onsets now later

namespace Session

/-- For each turn that goes on, whether it ends with the sound timer above zero. -/
def soundings (s : Session) : List Round → List Bool
  | [] => []
  | r :: later =>
    match s.step r.poll r.elapsed r.broken with
    | none => []
    | some (.running, s₁) => s₁.machine.isSounding :: s₁.soundings later
    | some (_, s₁) => s₁.soundings later

section
variable {s s' : Session}

theorem soundings_cons_running {r : Round} (h : s.step r.poll r.elapsed r.broken = some (.running, s'))
    (later : List Round) :
    s.soundings (r :: later) = s'.machine.isSounding :: s'.soundings later := by
  rw [soundings, h]

theorem soundings_cons_ended {r : Round} {outcome : Outcome}
    (h : s.step r.poll r.elapsed r.broken = some (outcome, s')) (ended : outcome ≠ .running)
    (later : List Round) : s.soundings (r :: later) = s'.soundings later := by
  rw [soundings, h]
  cases outcome with
  | running => exact absurd rfl ended
  | quit | failed problem => rfl

/-! ## One turn -/

theorem sound_cases (s : Session) (wanted : Bool) (broken : Option DeviceCall) :
    s.sound wanted broken = .ok { s with tone := s.tone.follow wanted } ∨
      ∃ call, s.sound wanted broken = .error (.device call) := by
  unfold sound
  split
  · exact .inr ⟨_, rfl⟩
  · split
    · exact .inr ⟨_, rfl⟩
    · exact .inl rfl

theorem refresh_cases (s : Session) (broken : Option DeviceCall) :
    (∃ s', s.refresh broken = .ok s' ∧ s'.tone = s.tone) ∨
      ∃ call, s.refresh broken = .error (.device call) := by
  unfold refresh redraw
  split
  · split
    · exact .inr ⟨_, rfl⟩
    · exact .inl ⟨_, rfl, rfl⟩
  · exact .inl ⟨_, rfl, rfl⟩

/-- At its end a turn brings the tone in line with the sound timer, unless a device fails. -/
theorem tone_settle {broken : Option DeviceCall} {outcome : Outcome}
    (settled : s.settle broken = (outcome, s')) :
    outcome = .running ∧ s'.tone = s.tone.follow s'.machine.isSounding ∨
      ∃ call, outcome = .failed (.device call) := by
  have same : s'.machine.isSounding = s.machine.isSounding := by
    have course := course_settle s broken
    rw [settled] at course
    exact congrArg (·.machine.isSounding) course
  rw [same]
  unfold settle at settled
  rcases sound_cases s s.machine.isSounding broken with hsound | ⟨call, hsound⟩
  · rw [hsound] at settled
    rcases refresh_cases { s with tone := s.tone.follow s.machine.isSounding } broken with
      ⟨s₁, hrefresh, tone⟩ | ⟨call, hrefresh⟩
    · simp only [hrefresh] at settled
      cases settled
      exact .inl ⟨rfl, tone⟩
    · simp only [hrefresh] at settled
      cases settled
      exact .inr ⟨call, rfl⟩
  · simp only [hsound] at settled
    cases settled
    exact .inr ⟨call, rfl⟩

theorem tone_atMove? {s₁ : Session} {r : Round} {ticks recordings : Nat}
    (hmove : s.atMove? r = some (ticks, recordings, s₁)) : s₁.tone = s.tone := by
  obtain ⟨s₀, timers, recorder, htold, -, -, rfl⟩ := atMove?_eq_some_iff.1 hmove
  have kept := tone_told htold
  exact kept

theorem tone_wentBack (s : Session) (recordings : Nat) : (s.wentBack recordings).tone = s.tone := by
  unfold wentBack goBack
  split
  · rfl
  · split <;> rfl

/-- A turn that goes on brings the tone in line with the sound timer, and any other leaves it alone
unless a device fails. -/
theorem tone_step {r : Round} {outcome : Outcome}
    (h : s.step r.poll r.elapsed r.broken = some (outcome, s')) :
    outcome = .running ∧ s'.tone = s.tone.follow s'.machine.isSounding ∨
      outcome ≠ .running ∧ ((∀ call, outcome ≠ .failed (.device call)) → s'.tone = s.tone) := by
  have settles (s₁ : Session) (tone : s₁.tone = s.tone)
      (settled : s₁.settle r.broken = (outcome, s')) :
      outcome = .running ∧ s'.tone = s.tone.follow s'.machine.isSounding ∨
        outcome ≠ .running ∧ ((∀ call, outcome ≠ .failed (.device call)) → s'.tone = s.tone) := by
    rw [← tone]
    rcases tone_settle settled with followed | ⟨call, rfl⟩
    · exact .inl followed
    · exact .inr ⟨by simp, fun works => absurd rfl (works call)⟩
  cases comes_of_step h with
  | stopped htold ended => exact .inr ⟨ended, fun _ => tone_told htold⟩
  | back hmove backwards settled =>
    exact settles _ ((tone_wentBack _ _).trans (tone_atMove? hmove)) settled
  | fault hmove forwards hcycle =>
    have kept := tone_atMove? hmove
    exact .inr ⟨by simp, fun _ => kept⟩
  | @forth ticks recordings s₁ progress m _ _ hmove forwards hcycle settled =>
    have kept := tone_atMove? hmove
    exact settles (s₁.executed (m.tickTimers ticks) recordings) kept settled

/-! ## Many turns -/

/-- By induction on the rounds, from any session: the tone is as the last turn that went on left it,
and began as often as a turn wanted it and the one before did not. -/
theorem tone_rounds {rounds : List Round} {outcomes : List Outcome}
    (h : s.rounds rounds = some (outcomes, s'))
    (works : ∀ call, .failed (.device call) ∉ outcomes) :
    s'.tone.isBeeping = (s.soundings rounds).getLastD s.tone.isBeeping ∧
      s'.tone.starts = s.tone.starts + onsets s.tone.isBeeping (s.soundings rounds) := by
  induction rounds generalizing s outcomes with
  | nil =>
    cases h
    exact ⟨rfl, rfl⟩
  | cons r later ih =>
    obtain ⟨outcome, s₁, after, hstep, hlater, rfl⟩ := rounds_cons_eq_some_iff.1 h
    simp only [List.mem_cons, not_or] at works
    obtain ⟨beeping, starts⟩ := ih hlater fun call => (works call).2
    rcases tone_step hstep with ⟨rfl, followed⟩ | ⟨ended, kept⟩
    · rw [soundings_cons_running hstep, beeping, starts, followed, Tone.isBeeping_follow,
        Tone.starts_follow, List.getLastD_cons, onsets, Nat.add_assoc]
      exact ⟨rfl, rfl⟩
    · have same := kept fun call failed => (works call).1 failed.symm
      rw [soundings_cons_ended hstep ended, beeping, starts, same]
      exact ⟨rfl, rfl⟩

/-- After a turn that goes on. -/
theorem inTune_rounds {rounds : List Round} {outcomes : List Outcome}
    (h : s.rounds rounds = some (outcomes, s')) (going : outcomes.getLast? = some .running) :
    s'.InTune := by
  induction rounds generalizing s outcomes with
  | nil =>
    cases h
    cases going
  | cons r later ih =>
    obtain ⟨outcome, s₁, after, hstep, hlater, rfl⟩ := rounds_cons_eq_some_iff.1 h
    cases later with
    | nil =>
      cases hlater
      rcases tone_step hstep with ⟨-, followed⟩ | ⟨ended, -⟩
      · rw [InTune, followed, Tone.isBeeping_follow]
      · cases going
        exact absurd rfl ended
    | cons next later =>
      obtain ⟨_, _, _, -, -, rfl⟩ := rounds_cons_eq_some_iff.1 hlater
      exact ih hlater going

end

/-! ## Main statement -/

/-- A session that begins in silence, over any turns.  After each turn that goes on the tone is on
exactly if the sound timer is above zero, whatever failed before.  As long as no device fails, the
tone has begun once for each turn that went on and left the sound timer above zero where the last turn
before that went on left it at zero, or there was none; turns that quit or fault count for nothing. -/
theorem starts_rounds {s s' : Session} (fresh : s.tone = .silent) {rounds : List Round}
    {outcomes : List Outcome} (h : s.rounds rounds = some (outcomes, s')) :
    (outcomes.getLast? = some .running →
      (s'.tone.isBeeping = true ↔ 0 < s'.machine.timers.sound.toNat)) ∧
    ((∀ call, .failed (.device call) ∉ outcomes) →
      s'.tone.starts = onsets false (s.soundings rounds) ∧
        s'.tone.isBeeping = (s.soundings rounds).getLastD false) := by
  constructor
  · intro going
    rw [← Timers.isSounding_iff, inTune_rounds h going]
    exact Iff.rfl
  · intro works
    obtain ⟨beeping, starts⟩ := tone_rounds h works
    rw [fresh] at beeping starts
    exact ⟨by simpa [Tone.silent] using starts, beeping⟩

/-- A tone that the second instruction of a program starts, with a turn before it in which the player
quits and plays on. -/
theorem starts_rounds_quit :
    let still : Round := ⟨⟨.released, [], false⟩, 0, none⟩
    let quitting : Round := ⟨⟨.released, [.quit], false⟩, 0, none⟩
    let rounds := [still, quitting, still]
    ∃ s s' : Session, s.tone = .silent ∧
      s.rounds rounds = some ([.running, .quit, .running], s') ∧
      s.soundings rounds = [false, true] ∧ s'.tone.starts = 1 ∧
      (s'.tone.isBeeping = true ↔ 0 < s'.machine.timers.sound.toNat) := by
  intro still quitting rounds
  obtain ⟨memory, hmemory, -⟩ := Memory.exists_load_blank (by decide : Console.tonePlayer.length ≤ _)
  obtain ⟨m₁, m₂, -, cycle₁, cycle₂, -, shown₁, shown₂, sounding⟩ :=
    Console.cycles_tonePlayer hmemory
  obtain ⟨s, hstart⟩ := exists_start Settings.firstZero?_default (by decide)
    { Machine.ofSeed ⟨false, false⟩ 3 with memory } ⟨⟨"saves"⟩, "pong", 2, 0⟩ .blank
  obtain ⟨-, hmachine, -⟩ := start_eq_some_ok hstart
  obtain ⟨htimers, hrecorder⟩ := still_of_start hstart
  obtain ⟨fresh, -⟩ := quiet_of_start hstart
  -- The first instruction sets a register, and not the sound timer.
  have silent : m₁.isSounding = false := by
    have hnext : { Machine.ofSeed ⟨false, false⟩ 3 with memory }.next? = some (.set Register.first 9) :=
      Machine.next?_of_load hmemory 0 rfl rfl rfl (by decide)
    obtain ⟨opcode, hcycle⟩ := Machine.cycle_of_next? hnext
    have same := (Machine.footprint_execute (hcycle.symm.trans cycle₁)).parts .sound (by decide)
    rw [Machine.isSounding, Timers.isSounding, show m₁.timers.sound = 0 from same]
    rfl
  have cycle₁ : (s.machine.setKeypad .released).cycle = some (.ok .executed, m₁) := by
    rw [hmachine]
    exact cycle₁
  have step₁ := step_of_still s .released htimers hrecorder cycle₁ shown₁
  let s₂ := (s.afterStill m₁).withKeys .released
  have step₂ : (s.afterStill m₁).step quitting.poll 0 none = some (.quit, s₂) := rfl
  have step₃ := step_of_still s₂ .released htimers hrecorder cycle₂ shown₂
  have hrounds : s.rounds rounds = some ([.running, .quit, .running], s₂.afterStill m₂) :=
    rounds_cons_eq_some_iff.2 ⟨_, _, _, step₁,
      rounds_cons_eq_some_iff.2 ⟨_, _, _, step₂,
        rounds_cons_eq_some_iff.2 ⟨_, _, _, step₃, rfl, rfl⟩, rfl⟩, rfl⟩
  have heard : s.soundings rounds = [false, true] := by
    rw [soundings_cons_running step₁, soundings_cons_ended step₂ (by simp),
      soundings_cons_running step₃]
    show [m₁.isSounding, m₂.isSounding] = _
    rw [silent, sounding]
  obtain ⟨tuned, counted⟩ := starts_rounds fresh hrounds
  have starts := (counted (by simp)).1
  rw [heard] at starts
  exact ⟨s, _, fresh, hrounds, heard, starts, tuned rfl⟩

end Session

end Chip8
