import Chip8.Play.Console
import Chip8.Proofs.Machine.Memory
import Chip8.Proofs.Play.Rounds

/-!
# How a run ends

Tone and sound timer are brought together at the end of a turn.  A turn that goes on leaves them so,
and one that fails at its instruction ends before it comes to that, with the tone as it found it:

    s.step poll elapsed none = some (.running, s') → s'.InTune                    (inTune_step)
    s.step poll elapsed none = some (.failed problem, s') → s'.tone = s.tone      (tone_step_failed)

A run that the player or the limit ends stops the tone first; one that a turn ends by failing does
not (`isBeeping_run`), and a tone that was on then goes on (`isBeeping_run_fault`).
-/

namespace Chip8

namespace Session

/-- The tone is on as long as the sound timer runs. -/
def InTune (s : Session) : Prop := s.tone.isBeeping = s.machine.isSounding

theorem settle_none_eq (s : Session) : ∃ s', s.settle none = (.running, s') ∧ s'.InTune := by
  refine ⟨(s.settle none).2, Prod.ext (settle_none s) rfl, ?_⟩
  have followed := s.tone.isBeeping_follow s.machine.isSounding
  rw [settle, sound_none]
  simp only [refresh, redraw]
  by_cases stale : s.machine.stale = true
  · simp only [stale, if_true]
    exact followed
  · simp only [stale]
    exact followed

theorem tone_told {s s' : Session} {r : Round} {outcome : Outcome}
    (htold : s.told r = some (outcome, s')) : s'.tone = s.tone :=
  (unmoved_obey (s := s.withKeys r.poll.keypad) htold).1.tone

section
variable {s s' : Session} {poll : Poll} {elapsed : Nat}

theorem inTune_step (h : s.step poll elapsed none = some (.running, s')) : s'.InTune := by
  cases comes_of_step (r := ⟨poll, elapsed, none⟩) h with
  | stopped htold ended => exact absurd rfl ended
  | @back ticks recordings s₁ _ _ hmove backwards settled =>
    obtain ⟨s₂, hsettle, tuned⟩ := settle_none_eq (s₁.wentBack recordings)
    rw [hsettle] at settled
    cases settled
    exact tuned
  | @forth ticks recordings s₁ progress m _ _ hmove forwards hcycle settled =>
    obtain ⟨s₂, hsettle, tuned⟩ := settle_none_eq (s₁.executed (m.tickTimers ticks) recordings)
    rw [hsettle] at settled
    cases settled
    exact tuned

/-- Where devices work a turn fails at its instruction, which is before the tone is looked at. -/
theorem tone_step_failed {problem : TurnError}
    (h : s.step poll elapsed none = some (.failed problem, s')) : s'.tone = s.tone := by
  cases comes_of_step (r := ⟨poll, elapsed, none⟩) h with
  | stopped htold ended => exact tone_told htold
  | @back ticks recordings s₁ _ _ hmove backwards settled =>
    obtain ⟨s₂, hsettle, -⟩ := settle_none_eq (s₁.wentBack recordings)
    rw [hsettle] at settled
    cases settled
  | fault hmove forwards hcycle =>
    obtain ⟨s₀, timers, recorder, htold, -, -, rfl⟩ := atMove?_eq_some_iff.1 hmove
    have kept := tone_told htold
    exact kept
  | @forth ticks recordings s₁ progress m _ _ hmove forwards hcycle settled =>
    obtain ⟨s₂, hsettle, -⟩ := settle_none_eq (s₁.executed (m.tickTimers ticks) recordings)
    rw [hsettle] at settled
    cases settled

end

/-- The session after an instruction that took no time and left the screen alone. -/
def afterStill (s : Session) (m : Machine) : Session :=
  { s with machine := m, tone := s.tone.follow m.isSounding, cycles := s.cycles + 1 }

section
variable (s : Session) (keypad : Keypad) (htimers : s.timers.advance 0 = some (0, s.timers))
  (hrecorder : s.recorder.advance 0 = some (0, s.recorder))
include htimers hrecorder

/-- No time passes. -/
theorem atMove?_of_still :
    s.atMove? ⟨⟨keypad, [], false⟩, 0, none⟩ = some (0, 0, s.withKeys keypad) :=
  atMove?_eq_some_iff.2 ⟨_, _, _, rfl, htimers, hrecorder, rfl⟩

theorem step_of_still {progress : Progress} {m : Machine}
    (hcycle : (s.machine.setKeypad keypad).cycle = some (.ok progress, m))
    (shown : m.stale = false) :
    s.step ⟨keypad, [], false⟩ 0 none = some (.running, s.afterStill m) := by
  have ticked : m.tickTimers 0 = m := by
    rw [Machine.tickTimers, Timers.tickBy_zero]
  have hstep := step_of_executed (atMove?_of_still s keypad htimers hrecorder) rfl hcycle
  rw [ticked] at hstep
  rw [hstep]
  simp [settle, sound, refresh, executed, withKeys, afterStill, shown]

theorem step_of_still_fault {f : Fault} {m : Machine}
    (hcycle : (s.machine.setKeypad keypad).cycle = some (.error f, m)) :
    s.step ⟨keypad, [], false⟩ 0 none = some (.failed (.fault f), { s with machine := m }) := by
  have hstep := step_of_atMove? (atMove?_of_still s keypad htimers hrecorder)
  rw [show (s.withKeys keypad).machine.cycle = _ from hcycle] at hstep
  exact hstep

end

end Session

namespace Console

/-- The console after turns that all go on. -/
def goesOn? (c : Console) (broken : Option DeviceCall) : List Nat → Option Console
  | [] => some c
  | elapsed :: later =>
    match c.step elapsed broken with
    | some (.running, c) => c.goesOn? broken later
    | _ => none

section
variable {c c' : Console} {broken : Option DeviceCall}

theorem step_idle {s s' : Session} {elapsed : Nat} {outcome : Outcome}
    (h : s.step ⟨.released, [], false⟩ elapsed none = some (outcome, s')) :
    step ⟨s, .script .idle⟩ elapsed none = some (outcome, ⟨s', .script .idle⟩) := by
  show (s.step ⟨.released, [], false⟩ elapsed none).map _ = _
  rw [h]
  rfl

theorem run_cons_failed {limit : Option Nat} {elapsed : Nat} {later : List Nat}
    {problem : TurnError} (h : c.step elapsed broken = some (.failed problem, c')) :
    c.run limit broken (elapsed :: later) = some (.failed problem, c') := by
  rw [run, h]
  rfl

/-- One more turn of a run that has no limit. -/
theorem run_cons_running {elapsed : Nat} {later : List Nat}
    (h : c.step elapsed broken = some (.running, c')) :
    c.run none broken (elapsed :: later) = c'.run none broken later := by
  rw [run, h]
  rfl

variable (works : ∀ call, broken = some call → call = .keypad)
include works

/-- Without its input device a turn fails at once; with it, no device fails. -/
theorem step_cases {elapsed : Nat} {outcome : Outcome}
    (h : c.step elapsed broken = some (outcome, c')) :
    outcome = .failed (.device .keypad) ∧ c' = c ∨
      broken = none ∧
        c.session.step c.controls.poll.1 elapsed none = some (outcome, c'.session) := by
  cases broken with
  | some call =>
    obtain rfl := works call rfl
    cases h
    exact .inl ⟨rfl, rfl⟩
  | none =>
    rw [step, if_neg (by simp), Option.map_eq_some_iff] at h
    obtain ⟨⟨_, session⟩, hstep, h⟩ := h
    cases h
    exact .inr ⟨rfl, hstep⟩

theorem inTune_step {elapsed : Nat} (h : c.step elapsed broken = some (.running, c')) :
    c'.session.InTune := by
  rcases step_cases works h with ⟨other, -⟩ | ⟨-, hstep⟩
  · cases other
  · exact Session.inTune_step hstep

theorem tone_step_failed {elapsed : Nat} {problem : TurnError}
    (h : c.step elapsed broken = some (.failed problem, c')) :
    c'.session.tone = c.session.tone := by
  rcases step_cases works h with ⟨-, rfl⟩ | ⟨-, hstep⟩
  · rfl
  · exact Session.tone_step_failed hstep

theorem silence_eq (c : Console) :
    ∃ c', c.silence broken = (.finished, c') ∧ c'.session.tone.isBeeping = false := by
  have ok : broken ≠ some .stop := by
    rintro rfl
    cases works .stop rfl
  have hsound : c.session.sound false broken =
      .ok { c.session with tone := c.session.tone.follow false } := by
    simp [Session.sound, ok]
  rw [silence, hsound]
  exact ⟨_, rfl, c.session.tone.isBeeping_follow false⟩

/-- A run goes on turn by turn up to the turn that ends it.  By induction on the times, from any
console. -/
theorem run_cases {limit : Option Nat} {times : List Nat} {ending : Ending}
    (h : c.run limit broken times = some (ending, c')) :
    ending = .stillRunning ∨ ending = .finished ∧ c'.session.tone.isBeeping = false ∨
      ∃ problem done elapsed later c₁, ending = .failed problem ∧
        times = done ++ elapsed :: later ∧ c.goesOn? broken done = some c₁ ∧
        c₁.step elapsed broken = some (.failed problem, c') := by
  induction times generalizing c with
  | nil =>
    cases h
    exact .inl rfl
  | cons elapsed later ih =>
    simp only [run, Option.bind_eq_bind, Option.bind_eq_some_iff, Prod.exists] at h
    obtain ⟨outcome, c₁, hstep, h⟩ := h
    cases outcome with
    | failed problem =>
      cases h
      exact .inr (.inr ⟨problem, [], elapsed, later, c, rfl, rfl, rfl, hstep⟩)
    | quit =>
      obtain ⟨c₂, hsilence, silent⟩ := silence_eq works c₁
      simp only [hsilence] at h
      cases h
      exact .inr (.inl ⟨rfl, silent⟩)
    | running =>
      simp only at h
      split at h
      · obtain ⟨c₂, hsilence, silent⟩ := silence_eq works c₁
        rw [hsilence] at h
        cases h
        exact .inr (.inl ⟨rfl, silent⟩)
      · rcases ih h with still | finished | ⟨problem, done, last, rest, c₂, rfl, rfl, hdone, hlast⟩
        · exact .inl still
        · exact .inr (.inl finished)
        · refine .inr (.inr ⟨problem, elapsed :: done, last, rest, c₂, rfl, rfl, ?_, hlast⟩)
          rw [goesOn?, hstep]
          exact hdone

/-- After at least one turn, tone and sound timer are in tune. -/
theorem inTune_goesOn {times : List Nat} (h : c.goesOn? broken times = some c')
    (some_turn : times ≠ []) : c'.session.InTune := by
  induction times generalizing c with
  | nil => exact absurd rfl some_turn
  | cons elapsed later ih =>
    rw [goesOn?] at h
    split at h
    · next c₁ hstep =>
      cases later with
      | nil =>
        cases h
        exact inTune_step works hstep
      | cons next later => exact ih h (by simp)
    · cases h

/-! ## Main statement -/

/-- With a display and a beeper that work: a run that ends at the player's wish or at its limit is
silent.  One that ends with a turn that fails leaves the tone as that turn found it, so it goes on
just if the turn before ended with the sound timer above zero. -/
theorem isBeeping_run {limit : Option Nat} {times : List Nat} {ending : Ending}
    (h : c.run limit broken times = some (ending, c')) :
    (ending = .finished → c'.session.tone.isBeeping = false) ∧
    ∀ problem, ending = .failed problem → ∃ done elapsed later c₁,
      times = done ++ elapsed :: later ∧ c.goesOn? broken done = some c₁ ∧
      c₁.step elapsed broken = some (.failed problem, c') ∧
      (c'.session.tone.isBeeping = true ↔
        if done = [] then c.session.tone.isBeeping = true
        else 0 < c₁.session.machine.timers.sound.toNat) := by
  rcases run_cases works h with rfl | ⟨rfl, silent⟩ |
    ⟨problem, done, elapsed, later, c₁, rfl, rfl, hdone, hlast⟩
  · exact ⟨by simp, by simp⟩
  · exact ⟨fun _ => silent, by simp⟩
  · refine ⟨by simp, fun problem' same => ?_⟩
    obtain rfl := Ending.failed.inj same
    refine ⟨done, elapsed, later, c₁, rfl, hdone, hlast, ?_⟩
    rw [tone_step_failed works hlast]
    split
    · next first =>
      subst first
      cases hdone
      exact Iff.rfl
    · next more =>
      rw [← Timers.isSounding_iff, inTune_goesOn works hdone more]
      exact Iff.rfl

end

/-- A program whose third word is no instruction.  Before it comes to that, it starts a tone. -/
def tonePlayer : List UInt8 := [0x60, 0x09, 0xF0, 0x18, 0xFF, 0xFF]

theorem cycles_tonePlayer {memory : Memory} (h : Memory.blank.load tonePlayer = some (.ok memory)) :
    ∃ m₁ m₂ m₃ : Machine,
      { Machine.ofSeed ⟨false, false⟩ 3 with memory }.cycle = some (.ok .executed, m₁) ∧
      (m₁.setKeypad .released).cycle = some (.ok .executed, m₂) ∧
      (m₂.setKeypad .released).cycle = some (.error (.unknownOpcode 0xFFFF 0x204), m₃) ∧
      m₁.stale = false ∧ m₂.stale = false ∧ m₂.isSounding = true := by
  let m : Machine := { Machine.ofSeed ⟨false, false⟩ 3 with memory }
  let m₁ : Machine := { m with
    registers := m.registers.put Register.first 9, counter := 0x202, opcode := 0x6009 }
  let m₂ : Machine := { m₁ with timers := ⟨0, 9⟩, counter := 0x204, opcode := 0xF018 }
  refine ⟨m₁, m₂, { m₂ with opcode := 0xFFFF }, ?_, ?_, ?_, rfl, rfl, rfl⟩
  · have hword := Memory.word?_load_at h (rfl : tonePlayer[0]? = some 0x60) rfl
    show (memory.word? 0x200).bind _ = _
    rw [show memory.word? 0x200 = some 0x6009 from hword]
    rfl
  · have hword := Memory.word?_load_at h (rfl : tonePlayer[2]? = some 0xF0) rfl
    show (memory.word? 0x202).bind _ = _
    rw [show memory.word? 0x202 = some 0xF018 from hword]
    rfl
  · have hword := Memory.word?_load_at h (rfl : tonePlayer[4]? = some 0xFF) rfl
    show (memory.word? 0x204).bind _ = _
    rw [show memory.word? 0x204 = some 0xFFFF from hword]
    rfl

/-- Without time for the tone to end, the third turn fails. -/
theorem exists_run_tonePlayer :
    ∃ m s c', (Machine.ofSeed ⟨false, false⟩ 3).load tonePlayer = some (.ok m) ∧
      Session.start .default m ⟨⟨"saves"⟩, "pong", 2, 0⟩ .blank = some (.ok s) ∧
      run ⟨s, .script .idle⟩ none none [0, 0, 0] =
        some (.failed (.fault (.unknownOpcode 0xFFFF 0x204)), c') ∧
      ∃ tone : Tone, c'.session.tone = tone.follow true := by
  obtain ⟨memory, hmemory, -⟩ := Memory.exists_load_blank (by decide : tonePlayer.length ≤ _)
  obtain ⟨m₁, m₂, m₃, cycle₁, cycle₂, cycle₃, shown₁, shown₂, sounding⟩ :=
    cycles_tonePlayer hmemory
  obtain ⟨s, hstart⟩ := Session.exists_start Settings.firstZero?_default (by decide)
    { Machine.ofSeed ⟨false, false⟩ 3 with memory } ⟨⟨"saves"⟩, "pong", 2, 0⟩ .blank
  obtain ⟨-, hmachine, -⟩ := Session.start_eq_some_ok hstart
  obtain ⟨htimers, hrecorder⟩ := Session.still_of_start hstart
  have cycle₁ : (s.machine.setKeypad .released).cycle = some (.ok .executed, m₁) := by
    rw [hmachine]
    exact cycle₁
  have step₁ := Session.step_of_still s .released htimers hrecorder cycle₁ shown₁
  have step₂ := Session.step_of_still (s.afterStill m₁) .released htimers
    hrecorder cycle₂ shown₂
  have step₃ := Session.step_of_still_fault ((s.afterStill m₁).afterStill m₂) .released
    htimers hrecorder cycle₃
  have hload : (Machine.ofSeed ⟨false, false⟩ 3).load tonePlayer = some (.ok _) :=
    congrArg (Option.map _) hmemory
  have hrun : run ⟨s, .script .idle⟩ none none [0, 0, 0] = _ :=
    (run_cons_running (step_idle step₁)).trans
      ((run_cons_running (step_idle step₂)).trans (run_cons_failed (step_idle step₃)))
  have htone : ((s.afterStill m₁).afterStill m₂).tone = (s.afterStill m₁).tone.follow true := by
    rw [← sounding]
    rfl
  exact ⟨_, s, _, hload, hstart, hrun, _, htone⟩

/-- What `isBeeping_run` says of a tone that goes on is said of runs that there are. -/
theorem isBeeping_run_tonePlayer :
    ∃ c c' problem, (∀ call, (none : Option DeviceCall) = some call → call = .keypad) ∧
      run c none none [0, 0, 0] = some (.failed problem, c') ∧
      ∃ done elapsed later c₁, [0, 0, 0] = done ++ elapsed :: later ∧
        c.goesOn? none done = some c₁ ∧ c₁.step elapsed none = some (.failed problem, c') ∧
        (c'.session.tone.isBeeping = true ↔
          if done = [] then c.session.tone.isBeeping = true
          else 0 < c₁.session.machine.timers.sound.toNat) := by
  obtain ⟨m, s, c', -, -, hrun, -⟩ := exists_run_tonePlayer
  have works : ∀ call, (none : Option DeviceCall) = some call → call = .keypad := by simp
  exact ⟨_, c', _, works, hrun, (isBeeping_run works hrun).2 _ rfl⟩

/-- A session starts in silence; a fault in the middle of a tone ends it with the tone still on. -/
theorem isBeeping_run_fault :
    ∃ m s c', (Machine.ofSeed ⟨false, false⟩ 3).load [0x60, 0x09, 0xF0, 0x18, 0xFF, 0xFF] =
        some (.ok m) ∧
      Session.start .default m ⟨⟨"saves"⟩, "pong", 2, 0⟩ .blank = some (.ok s) ∧
      run ⟨s, .script .idle⟩ none none [0, 0, 0] =
        some (.failed (.fault (.unknownOpcode 0xFFFF 0x204)), c') ∧
      c'.session.tone.isBeeping = true := by
  obtain ⟨m, s, c', hload, hstart, hrun, tone, htone⟩ := exists_run_tonePlayer
  refine ⟨m, s, c', hload, hstart, hrun, ?_⟩
  rw [htone]
  exact tone.isBeeping_follow true

end Console

end Chip8
