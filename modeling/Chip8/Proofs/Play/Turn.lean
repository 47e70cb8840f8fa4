import Chip8.Play.Session
import Chip8.Proofs.Machine.Memory

/-!
# Turns

A turn comes to a cycle when no command quits, no device fails before it, the cadences tick and the
machine goes forwards: `atCycle?` is the session at that point.  The cycle settles all else:

    s.atCycle? poll elapsed broken = some s₁ →
      s.step poll elapsed broken = s₁.machine.cycle.map (what is made of its outcome)
                                                                    (step_of_atCycle?)
    s.atCycle? poll elapsed broken = none →
      s.step poll elapsed broken = some (outcome, s') → outcome.fault? = none ∧ s'.cycles = s.cycles
                                                                    (step_without_cycle)

Devices change nothing of a session's `Course`, in which machines are told apart by all but their
stale screens.
-/

namespace Chip8

/-- The fault that ended a turn. -/
def Outcome.fault? : Outcome → Option Fault
  | failed (.fault f) => some f
  | _ => none

/-- What goes on in a session apart from devices, files and the past. -/
structure Course where
  machine : Machine
  slots : Slots
  timers : Cadence
  recorder : Cadence
  cycles : Nat
  deriving DecidableEq, Repr

/-- No setting of those that must not be zero is. -/
theorem Settings.valueOf_ne_zero {settings : Settings} (h : settings.firstZero? = none)
    (setting : Setting) : settings.valueOf setting ≠ 0 := by
  have := List.find?_eq_none.1 h setting (by cases setting <;> simp)
  simpa using this

theorem Settings.firstZero?_default : Settings.default.firstZero? = none := by decide

theorem Machine.markShown_of_shown {m : Machine} (h : m.stale = false) : m.markShown = m := by
  rw [markShown, ← h]

/-- Without a program the first word is a jump. -/
theorem Machine.exists_cycle_ofSeed (mode : Mode) (seed : UInt64) (keypad : Keypad) :
    ∃ m, ((ofSeed mode seed).setKeypad keypad).cycle = some (.ok .executed, m) ∧
      m.stale = false := by
  rw [cycle]
  show ∃ m, (Memory.blank.word? 0x200).bind _ = _ ∧ _
  rw [Memory.word?_blank]
  exact ⟨_, rfl, rfl⟩

namespace Session

/-- The course of a session, whether or not its screen has been shown. -/
def course (s : Session) : Course where
  machine := s.machine.markShown
  slots := s.slots
  timers := s.timers
  recorder := s.recorder
  cycles := s.cycles

/-! ## The start -/

/-- Settings that a session starts with are above zero. -/
theorem start_eq_some_ok {settings : Settings} {machine : Machine} {slots : Slots} {disk : Disk}
    {s : Session} (h : start settings machine slots disk = some (.ok s)) :
    settings.firstZero? = none ∧ s.machine = machine ∧ s.slots = slots ∧ s.disk = disk ∧
      s.cycles = 0 ∧ s.timers = .perSecond settings.timerUpdatesPerSecond ∧
      s.recorder = .perSecond settings.rewindFrequency := by
  unfold start at h
  split at h
  · cases h
  · next hzero =>
    obtain ⟨history, -, hs⟩ := Option.map_eq_some_iff.1 h
    cases hs
    exact ⟨hzero, rfl, rfl, rfl, rfl, rfl, rfl⟩

/-- A session starts in silence, and with nothing said. -/
theorem quiet_of_start {settings : Settings} {machine : Machine} {slots : Slots} {disk : Disk}
    {s : Session} (h : start settings machine slots disk = some (.ok s)) :
    s.tone = .silent ∧ s.message = "" := by
  unfold start at h
  split at h
  · cases h
  · obtain ⟨history, -, hs⟩ := Option.map_eq_some_iff.1 h
    cases hs
    exact ⟨rfl, rfl⟩

theorem exists_start {settings : Settings} (hzero : settings.firstZero? = none)
    (hroom : settings.rewindBufferSize.toNat ≤ History.maxCapacity) (machine : Machine)
    (slots : Slots) (disk : Disk) : ∃ s, start settings machine slots disk = some (.ok s) := by
  have full : settings.rewindBufferSize.toNat ≠ 0 :=
    Settings.valueOf_ne_zero hzero .rewindBufferSize
  have room : ¬(settings.rewindBufferSize.toNat = 0 ∨
      History.maxCapacity < settings.rewindBufferSize.toNat) := by
    omega
  unfold start
  rw [hzero, History.ofCapacity?, if_neg room]
  exact ⟨_, rfl⟩

/-- Nothing is due as long as no time has passed. -/
theorem still_of_start {machine : Machine} {slots : Slots} {disk : Disk} {s : Session}
    (h : start .default machine slots disk = some (.ok s)) :
    s.timers.advance 0 = some (0, s.timers) ∧ s.recorder.advance 0 = some (0, s.recorder) := by
  obtain ⟨-, -, -, -, -, htimers, hrecorder⟩ := start_eq_some_ok h
  have still : (Cadence.perSecond 60).advance 0 = some (0, .perSecond 60) := by decide
  rw [htimers, hrecorder]
  exact ⟨still, still⟩

/-! ## Devices -/

theorem course_redraw {s s' : Session} {broken : Option DeviceCall}
    (h : s.redraw broken = .ok s') : s'.course = s.course := by
  unfold redraw at h
  split at h <;> cases h
  rfl

theorem course_refresh {s s' : Session} {broken : Option DeviceCall}
    (h : s.refresh broken = .ok s') : s'.course = s.course := by
  unfold refresh at h
  split at h
  · exact course_redraw h
  · cases h
    rfl

theorem course_sound {s s' : Session} {wanted : Bool} {broken : Option DeviceCall}
    (h : s.sound wanted broken = .ok s') : s'.course = s.course := by
  unfold sound at h
  split at h
  · cases h
  · split at h <;> cases h
    rfl

theorem course_settle (s : Session) (broken : Option DeviceCall) :
    (s.settle broken).2.course = s.course := by
  unfold settle
  split
  · rfl
  · next s₁ hsound =>
    split
    · exact course_sound hsound
    · next s₂ hrefresh => exact (course_refresh hrefresh).trans (course_sound hsound)

theorem fault?_settle (s : Session) (broken : Option DeviceCall) :
    (s.settle broken).1.fault? = none := by
  unfold settle sound refresh redraw
  grind [Outcome.fault?]

theorem sound_none (s : Session) (wanted : Bool) :
    s.sound wanted none = .ok { s with tone := s.tone.follow wanted } := by
  simp [sound]

/-- Devices that work never end a turn. -/
theorem settle_none (s : Session) : (s.settle none).1 = .running := by
  unfold settle sound refresh redraw
  grind

/-! ## Commands -/

/-- As much time has passed, and as many instructions were executed. -/
structure SameTime (s s' : Session) : Prop where
  timers : s'.timers = s.timers
  recorder : s'.recorder = s.recorder
  cycles : s'.cycles = s.cycles

theorem sameTime_of_course {s s' : Session} (h : s'.course = s.course) : s.SameTime s' :=
  ⟨congrArg Course.timers h, congrArg Course.recorder h, congrArg Course.cycles h⟩

theorem SameTime.trans {s s' s'' : Session} (h : s.SameTime s') (h' : s'.SameTime s'') :
    s.SameTime s'' :=
  ⟨h'.timers.trans h.timers, h'.recorder.trans h.recorder, h'.cycles.trans h.cycles⟩

/-- No time has passed, nothing was executed or recorded, and the tone goes on as it was. -/
structure Unmoved (s s' : Session) : Prop extends s.SameTime s' where
  history : s'.history = s.history
  tone : s'.tone = s.tone

theorem Unmoved.refl (s : Session) : s.Unmoved s := ⟨⟨rfl, rfl, rfl⟩, rfl, rfl⟩

theorem Unmoved.trans {s s' s'' : Session} (h : s.Unmoved s') (h' : s'.Unmoved s'') :
    s.Unmoved s'' :=
  ⟨h.toSameTime.trans h'.toSameTime, h'.history.trans h.history, h'.tone.trans h.tone⟩

/-- All that a command may change. -/
theorem eq_of_command {s s' : Session} {c : Command} (h : s.command c = some s') :
    ∃ machine slots disk message, s' = { s with machine, slots, disk, message } := by
  cases c with
  | quit =>
    cases h
    exact ⟨_, _, _, _, rfl⟩
  | save =>
    cases h
    unfold saveSlot
    split <;> exact ⟨_, _, _, _, rfl⟩
  | load =>
    cases h
    unfold loadSlot
    split
    · exact ⟨_, _, _, _, rfl⟩
    · split <;> exact ⟨_, _, _, _, rfl⟩
  | nextSlot =>
    cases h
    exact ⟨_, _, _, _, rfl⟩
  | previousSlot =>
    obtain ⟨slots, -, rfl⟩ := Option.map_eq_some_iff.1 h
    exact ⟨_, _, _, _, rfl⟩

theorem unmoved_command {s s' : Session} {c : Command} (h : s.command c = some s') :
    s.Unmoved s' := by
  obtain ⟨_, _, _, _, rfl⟩ := eq_of_command h
  exact ⟨⟨rfl, rfl, rfl⟩, rfl, rfl⟩

theorem unmoved_redraw {s s' : Session} {broken : Option DeviceCall}
    (h : s.redraw broken = .ok s') : s.Unmoved s' := by
  unfold redraw at h
  split at h <;> cases h
  exact ⟨⟨rfl, rfl, rfl⟩, rfl, rfl⟩

/-- One command obeyed and shown, and then the others. -/
theorem obey_cons {s : Session} {broken : Option DeviceCall} {c : Command} (hc : c ≠ .quit)
    (later : List Command) :
    s.obey broken (c :: later) = (s.command c).bind fun s₁ =>
      match s₁.redraw broken with
      | .ok s₂ => s₂.obey broken later
      | .error problem => some (.failed problem, s₁) := by
  cases c with
  | quit => exact absurd rfl hc
  | save | load | nextSlot | previousSlot => rfl

theorem fault?_of_redraw {s : Session} {broken : Option DeviceCall} {problem : TurnError}
    (h : s.redraw broken = .error problem) : (Outcome.failed problem).fault? = none := by
  unfold redraw at h
  split at h <;> cases h
  rfl

/-- Commands take no time and execute nothing. -/
theorem unmoved_obey {s s' : Session} {broken : Option DeviceCall} {commands : List Command}
    {outcome : Outcome} (h : s.obey broken commands = some (outcome, s')) :
    s.Unmoved s' ∧ outcome.fault? = none := by
  induction commands generalizing s with
  | nil => cases h; exact ⟨.refl _, rfl⟩
  | cons c later ih =>
    by_cases hc : c = .quit
    · subst hc
      cases h
      exact ⟨.refl _, rfl⟩
    · rw [obey_cons hc, Option.bind_eq_some_iff] at h
      obtain ⟨s₁, hcommand, h⟩ := h
      have commanded := unmoved_command hcommand
      split at h
      · next s₂ hredraw =>
        have shown := commanded.trans (unmoved_redraw hredraw)
        exact ⟨shown.trans (ih h).1, (ih h).2⟩
      · next problem hredraw =>
        cases h
        exact ⟨commanded, fault?_of_redraw hredraw⟩

theorem obey_sameTime {s s' : Session} {broken : Option DeviceCall} {commands : List Command}
    {outcome : Outcome} (h : s.obey broken commands = some (outcome, s')) :
    s.SameTime s' ∧ outcome.fault? = none :=
  ⟨(unmoved_obey h).1.toSameTime, (unmoved_obey h).2⟩

/-! ## The cycle of a turn -/

/-- The session with the keys of a poll. -/
def withKeys (s : Session) (keypad : Keypad) : Session :=
  { s with machine := s.machine.setKeypad keypad }

/-- The session when its turn comes to a cycle: no command quits, no device fails, the machine goes
forwards, and both cadences have an answer. -/
def atCycle? (s : Session) (poll : Poll) (elapsed : Nat) (broken : Option DeviceCall) :
    Option Session :=
  match (s.withKeys poll.keypad).obey broken poll.commands with
  | some (.running, s₁) =>
    if poll.rewinding ∨ s.timers.advance elapsed = none ∨ s.recorder.advance elapsed = none then
      none
    else some s₁
  | _ => none

theorem atCycle?_eq_some_iff {s s₁ : Session} {poll : Poll} {elapsed : Nat}
    {broken : Option DeviceCall} :
    s.atCycle? poll elapsed broken = some s₁ ↔
      (s.withKeys poll.keypad).obey broken poll.commands = some (.running, s₁) ∧
        poll.rewinding = false ∧ s.timers.advance elapsed ≠ none ∧
        s.recorder.advance elapsed ≠ none := by
  unfold atCycle?
  split
  · next s₂ hobey =>
    rw [hobey]
    constructor
    · intro h
      split at h <;> cases h
      simp_all
    · rintro ⟨h, hforwards, htimers, hrecorder⟩
      cases h
      simp [hforwards, htimers, hrecorder]
  · next other => simpa using fun h => absurd h (other s₁)

/-- What a turn comes to once it has come to its cycle. -/
theorem step_of_atCycle? {s s₁ : Session} {poll : Poll} {elapsed : Nat}
    {broken : Option DeviceCall} (h : s.atCycle? poll elapsed broken = some s₁)
    {ticks recordings : Nat} {timers recorder : Cadence}
    (htimers : s.timers.advance elapsed = some (ticks, timers))
    (hrecorder : s.recorder.advance elapsed = some (recordings, recorder)) :
    s.step poll elapsed broken = s₁.machine.cycle.map fun
      | (.error f, machine) => (.failed (.fault f), { s₁ with timers, recorder, machine })
      | (.ok _, machine) =>
        let machine := machine.tickTimers ticks
        let history := if recordings = 0 then s₁.history else s₁.history.record machine
        { s₁ with timers, recorder, machine, history, cycles := s₁.cycles + 1 }.settle broken := by
  obtain ⟨hobey, hforwards, -, -⟩ := atCycle?_eq_some_iff.1 h
  have same := (obey_sameTime hobey).1
  have htimers : s₁.timers.advance elapsed = some (ticks, timers) := by
    rw [same.timers]
    exact htimers
  have hrecorder : s₁.recorder.advance elapsed = some (recordings, recorder) := by
    rw [same.recorder]
    exact hrecorder
  unfold withKeys at hobey
  simp only [step, hobey, move, htimers, hrecorder, hforwards, goOn, Option.bind_eq_bind,
    Option.bind_some, Option.pure_def]
  rcases s₁.machine.cycle with _ | ⟨outcome | progress, machine⟩ <;> rfl

theorem cycles_goBack (s : Session) : s.goBack.cycles = s.cycles := by
  unfold goBack
  split <;> rfl

theorem advance_of_move {s s' : Session} {rewinding : Bool} {elapsed : Nat} {outcome : Outcome}
    (h : s.move rewinding elapsed = some (outcome, s')) :
    s.timers.advance elapsed ≠ none ∧ s.recorder.advance elapsed ≠ none := by
  unfold move at h
  simp only [Option.bind_eq_bind, Option.bind_eq_some_iff, Prod.exists] at h
  obtain ⟨ticks, timers, htimers, recordings, recorder, hrecorder, -⟩ := h
  simp [htimers, hrecorder]

theorem move_backwards {s s' : Session} {elapsed : Nat} {outcome : Outcome}
    (h : s.move true elapsed = some (outcome, s')) :
    outcome = .running ∧ s'.cycles = s.cycles := by
  unfold move at h
  simp only [Option.bind_eq_bind, Option.bind_eq_some_iff, Prod.exists, if_true] at h
  obtain ⟨ticks, timers, -, recordings, recorder, -, h⟩ := h
  cases h
  refine ⟨rfl, ?_⟩
  split
  · rfl
  · exact cycles_goBack _

/-- A turn that does not come to a cycle has none. -/
theorem step_without_cycle {s s' : Session} {poll : Poll} {elapsed : Nat}
    {broken : Option DeviceCall} {outcome : Outcome}
    (h : s.atCycle? poll elapsed broken = none)
    (hstep : s.step poll elapsed broken = some (outcome, s')) :
    outcome.fault? = none ∧ s'.cycles = s.cycles := by
  unfold step at hstep
  simp only [Option.bind_eq_bind, Option.bind_eq_some_iff, Prod.exists] at hstep
  obtain ⟨obeyed, s₁, hobey, hstep⟩ := hstep
  obtain ⟨same, nofault⟩ := obey_sameTime hobey
  cases obeyed with
  | quit | failed problem =>
    cases hstep
    exact ⟨nofault, same.cycles⟩
  | running =>
    simp only [Option.bind_eq_some_iff, Prod.exists] at hstep
    obtain ⟨moved, s₂, hmove, hstep⟩ := hstep
    have backwards : poll.rewinding = true := by
      refine Bool.of_not_eq_false fun forwards => ?_
      obtain ⟨htimers, hrecorder⟩ := advance_of_move hmove
      rw [same.timers] at htimers
      rw [same.recorder] at hrecorder
      have come := atCycle?_eq_some_iff.2 ⟨hobey, forwards, htimers, hrecorder⟩
      rw [h] at come
      cases come
    rw [backwards] at hmove
    obtain ⟨rfl, hcycles⟩ := move_backwards hmove
    have hsettle : s₂.settle broken = (outcome, s') := Option.some.inj hstep
    have nofault := fault?_settle s₂ broken
    have settled := congrArg Course.cycles (course_settle s₂ broken)
    rw [hsettle] at nofault settled
    exact ⟨nofault, settled.trans (hcycles.trans same.cycles)⟩

end Session

end Chip8
