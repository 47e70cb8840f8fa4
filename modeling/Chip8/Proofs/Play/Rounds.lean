import Chip8.Proofs.Machine.Frame
import Chip8.Proofs.Play.Turn

/-!
# Round after round

A session is given a poll, a time and the device that fails, over and over.  A turn that has come
past its commands and both cadences is about to move its machine: `atMove?` is the session then,
with the ticks of the turn.  What a turn can come to is `Comes`, and it is all there is:

    s.step r.poll r.elapsed r.broken = some (outcome, s') → s.Comes r outcome s'   (comes_of_step)
    s.step r.poll r.elapsed r.broken = none ↔ a command, a cadence or the cycle has no answer
                                                                               (step_eq_none_iff)

Which instruction a turn executes is `instruction?`, and the session counts it (`Comes.cycles`).

A round whose input fails leaves all of the session as it was, so none of these is one.  Nor does a
run end where a turn fails or the player quits: whoever holds the session may go on.
-/

namespace Chip8

/-- What a turn is given. -/
structure Round where
  poll : Poll
  /-- Time since the turn before. -/
  elapsed : Nat
  broken : Option DeviceCall
  deriving DecidableEq, Repr

namespace Session

/-- Turns one after another, each with its outcome. -/
def rounds (s : Session) : List Round → Option (List Outcome × Session)
  | [] => some ([], s)
  | r :: later => do
    let (outcome, s) ← s.step r.poll r.elapsed r.broken
    let (outcomes, s) ← s.rounds later
    return (outcome :: outcomes, s)

theorem rounds_cons_eq_some_iff {s s' : Session} {r : Round} {later : List Round}
    {outcomes : List Outcome} :
    s.rounds (r :: later) = some (outcomes, s') ↔
      ∃ outcome s₁ after, s.step r.poll r.elapsed r.broken = some (outcome, s₁) ∧
        s₁.rounds later = some (after, s') ∧ outcomes = outcome :: after := by
  rw [rounds]
  simp only [Option.bind_eq_bind, Option.bind_eq_some_iff, Prod.exists]
  constructor
  · rintro ⟨outcome, s₁, hstep, after, s₂, hlater, h⟩
    cases h
    exact ⟨outcome, s₁, after, hstep, hlater, rfl⟩
  · rintro ⟨outcome, s₁, after, hstep, hlater, rfl⟩
    exact ⟨outcome, s₁, hstep, after, s', hlater, rfl⟩

/-! ## What a turn comes to -/

/-- The session once the keys are taken and the commands obeyed. -/
def told (s : Session) (r : Round) : Option (Outcome × Session) :=
  (s.withKeys r.poll.keypad).obey r.broken r.poll.commands

/-- The session when its turn comes to move the machine, forwards or backwards, with the ticks of
its timers and its recorder. -/
def atMove? (s : Session) (r : Round) : Option (Nat × Nat × Session) :=
  match s.told r with
  | some (.running, s₁) => do
    let (ticks, timers) ← s.timers.advance r.elapsed
    let (recordings, recorder) ← s.recorder.advance r.elapsed
    return (ticks, recordings, { s₁ with timers, recorder })
  | _ => none

/-- The session after an instruction has left this machine, which may be recorded. -/
def executed (s : Session) (machine : Machine) (recordings : Nat) : Session :=
  { s with
    machine
    history := if recordings = 0 then s.history else s.history.record machine
    cycles := s.cycles + 1 }

/-- The session one recording back, if one is due. -/
def wentBack (s : Session) (recordings : Nat) : Session :=
  if recordings = 0 then s else s.goBack

/-- What a turn comes to. -/
inductive Comes (s : Session) (r : Round) : Outcome → Session → Prop
  /-- A command quits, or the display fails at one. -/
  | stopped {outcome s'} (htold : s.told r = some (outcome, s')) (ended : outcome ≠ .running) :
    Comes s r outcome s'
  | back {ticks recordings s₁ outcome s'} (hmove : s.atMove? r = some (ticks, recordings, s₁))
    (backwards : r.poll.rewinding = true)
    (settled : (s₁.wentBack recordings).settle r.broken = (outcome, s')) : Comes s r outcome s'
  | fault {ticks recordings s₁ f m} (hmove : s.atMove? r = some (ticks, recordings, s₁))
    (forwards : r.poll.rewinding = false) (hcycle : s₁.machine.cycle = some (.error f, m)) :
    Comes s r (.failed (.fault f)) { s₁ with machine := m }
  | forth {ticks recordings s₁ progress m outcome s'}
    (hmove : s.atMove? r = some (ticks, recordings, s₁)) (forwards : r.poll.rewinding = false)
    (hcycle : s₁.machine.cycle = some (.ok progress, m))
    (settled : (s₁.executed (m.tickTimers ticks) recordings).settle r.broken = (outcome, s')) :
    Comes s r outcome s'

theorem sameTime_settle {s s' : Session} {broken : Option DeviceCall} {outcome : Outcome}
    (settled : s.settle broken = (outcome, s')) : s.SameTime s' := by
  have same := course_settle s broken
  rw [settled] at same
  exact sameTime_of_course same

theorem sameTime_wentBack (s : Session) (recordings : Nat) :
    s.SameTime (s.wentBack recordings) := by
  unfold wentBack goBack
  split
  · exact ⟨rfl, rfl, rfl⟩
  · split <;> exact ⟨rfl, rfl, rfl⟩

theorem step_of_stopped {s s' : Session} {r : Round} {outcome : Outcome}
    (htold : s.told r = some (outcome, s')) (ended : outcome ≠ .running) :
    s.step r.poll r.elapsed r.broken = some (outcome, s') := by
  unfold told withKeys at htold
  simp only [step, htold, Option.bind_eq_bind, Option.bind_some]
  cases outcome with
  | running => exact absurd rfl ended
  | quit | failed problem => rfl

theorem sameTime_told {s s' : Session} {r : Round} {outcome : Outcome}
    (htold : s.told r = some (outcome, s')) : s.SameTime s' := by
  obtain ⟨htimers, hrecorder, hcycles⟩ := (obey_sameTime htold).1
  exact ⟨htimers, hrecorder, hcycles⟩

theorem atMove?_eq_some_iff {s s₁ : Session} {r : Round} {ticks recordings : Nat} :
    s.atMove? r = some (ticks, recordings, s₁) ↔
      ∃ s₀ timers recorder, s.told r = some (.running, s₀) ∧
        s.timers.advance r.elapsed = some (ticks, timers) ∧
        s.recorder.advance r.elapsed = some (recordings, recorder) ∧
        s₁ = { s₀ with timers, recorder } := by
  unfold atMove?
  split
  · next s₀ htold =>
    simp only [Option.bind_eq_bind, Option.bind_eq_some_iff, Prod.exists]
    constructor
    · rintro ⟨ticks, timers, htimers, recordings, recorder, hrecorder, h⟩
      cases h
      exact ⟨s₀, timers, recorder, htold, htimers, hrecorder, rfl⟩
    · rintro ⟨s₀, timers, recorder, h, htimers, hrecorder, rfl⟩
      rw [htold] at h
      cases h
      exact ⟨ticks, timers, htimers, recordings, recorder, hrecorder, rfl⟩
  · next other =>
    constructor
    · intro h
      cases h
    · rintro ⟨s₀, timers, recorder, htold, -⟩
      exact absurd htold (other s₀)

theorem advance_of_atMove? {s s₁ : Session} {r : Round} {ticks recordings : Nat}
    (hmove : s.atMove? r = some (ticks, recordings, s₁)) :
    s.timers.advance r.elapsed = some (ticks, s₁.timers) ∧
      s.recorder.advance r.elapsed = some (recordings, s₁.recorder) := by
  obtain ⟨s₀, timers, recorder, -, htimers, hrecorder, rfl⟩ := atMove?_eq_some_iff.1 hmove
  exact ⟨htimers, hrecorder⟩

theorem atMove?_eq_none_iff {s s₀ : Session} {r : Round}
    (htold : s.told r = some (.running, s₀)) :
    s.atMove? r = none ↔
      s.timers.advance r.elapsed = none ∨ s.recorder.advance r.elapsed = none := by
  unfold atMove?
  rw [htold]
  rcases s.timers.advance r.elapsed with _ | ⟨ticks, timers⟩ <;>
    rcases s.recorder.advance r.elapsed with _ | ⟨recordings, recorder⟩ <;> simp

/-- A turn that has come so far moves its machine, and then settles unless a fault ends it. -/
theorem step_of_atMove? {s s₁ : Session} {r : Round} {ticks recordings : Nat}
    (hmove : s.atMove? r = some (ticks, recordings, s₁)) :
    s.step r.poll r.elapsed r.broken =
      if r.poll.rewinding then some ((s₁.wentBack recordings).settle r.broken)
      else s₁.machine.cycle.map fun
        | (.error f, m) => (.failed (.fault f), { s₁ with machine := m })
        | (.ok _, m) => (s₁.executed (m.tickTimers ticks) recordings).settle r.broken := by
  obtain ⟨s₀, timers, recorder, htold, htimers, hrecorder, rfl⟩ := atMove?_eq_some_iff.1 hmove
  rw [← (sameTime_told htold).timers] at htimers
  rw [← (sameTime_told htold).recorder] at hrecorder
  unfold told withKeys at htold
  simp only [step, htold, move, htimers, hrecorder, goOn, Option.bind_eq_bind, Option.bind_some,
    Option.pure_def]
  cases r.poll.rewinding with
  | true => rfl
  | false => rcases s₀.machine.cycle with _ | ⟨f | progress, m⟩ <;> rfl

theorem step_of_executed {s s₁ : Session} {r : Round} {ticks recordings : Nat}
    (hmove : s.atMove? r = some (ticks, recordings, s₁)) (forwards : r.poll.rewinding = false)
    {progress : Progress} {m : Machine} (hcycle : s₁.machine.cycle = some (.ok progress, m)) :
    s.step r.poll r.elapsed r.broken =
      some ((s₁.executed (m.tickTimers ticks) recordings).settle r.broken) := by
  rw [step_of_atMove? hmove, forwards, hcycle]
  rfl

/-- A turn that is not stopped and does not come so far has no outcome. -/
theorem step_of_atMove?_none {s s₀ : Session} {r : Round}
    (htold : s.told r = some (.running, s₀)) (hmove : s.atMove? r = none) :
    s.step r.poll r.elapsed r.broken = none := by
  rw [atMove?_eq_none_iff htold, ← (sameTime_told htold).timers,
    ← (sameTime_told htold).recorder] at hmove
  unfold told withKeys at htold
  simp only [step, htold, move, Option.bind_eq_bind, Option.bind_some]
  rcases hmove with htimers | hrecorder
  · rw [htimers]
    rfl
  · rw [hrecorder]
    cases s₀.timers.advance r.elapsed <;> rfl

theorem comes_of_step {s s' : Session} {r : Round} {outcome : Outcome}
    (hstep : s.step r.poll r.elapsed r.broken = some (outcome, s')) : s.Comes r outcome s' := by
  cases hmove : s.atMove? r with
  | some moved =>
    obtain ⟨ticks, recordings, s₁⟩ := moved
    rw [step_of_atMove? hmove] at hstep
    split at hstep
    · next backwards => exact .back hmove backwards (Option.some.inj hstep)
    · next forwards =>
      have forwards := Bool.of_not_eq_true forwards
      obtain ⟨⟨f | progress, m⟩, hcycle, h⟩ := Option.map_eq_some_iff.1 hstep
      · cases h
        exact .fault hmove forwards hcycle
      · exact .forth hmove forwards hcycle h
  | none =>
    rcases htold : s.told r with _ | ⟨told, s₀⟩
    · unfold told withKeys at htold
      simp [step, htold] at hstep
    · by_cases running : told = .running
      · subst running
        rw [step_of_atMove?_none htold hmove] at hstep
        cases hstep
      · rw [step_of_stopped htold running] at hstep
        cases hstep
        exact .stopped htold running

/-- A turn has no outcome where a command has none, or where none of them ends it and a cadence has
no answer or the machine goes forwards and its cycle has no outcome. -/
theorem step_eq_none_iff {s : Session} {r : Round} :
    s.step r.poll r.elapsed r.broken = none ↔
      s.told r = none ∨ ∃ s₁, s.told r = some (.running, s₁) ∧
        (s.timers.advance r.elapsed = none ∨ s.recorder.advance r.elapsed = none ∨
          r.poll.rewinding = false ∧ s₁.machine.cycle = none) := by
  rcases htold : s.told r with _ | ⟨told, s₀⟩
  · unfold told withKeys at htold
    simp [step, htold]
  by_cases running : told = .running
  · subst running
    simp only [reduceCtorEq, Option.some.injEq, Prod.mk.injEq, true_and, exists_eq_left', false_or]
    rw [← or_assoc, ← atMove?_eq_none_iff htold]
    rcases hmove : s.atMove? r with _ | ⟨ticks, recordings, s₁⟩
    · simp [step_of_atMove?_none htold hmove]
    · obtain ⟨s₀', timers, recorder, htold', -, -, rfl⟩ := atMove?_eq_some_iff.1 hmove
      rw [htold] at htold'
      cases htold'
      rw [step_of_atMove? hmove]
      cases r.poll.rewinding <;> simp
  · rw [step_of_stopped htold running]
    simp [running]

/-- Time passes for both cadences or for neither. -/
theorem Comes.advance {s s' : Session} {r : Round} {outcome : Outcome} (h : s.Comes r outcome s') :
    s'.timers = s.timers ∧ s'.recorder = s.recorder ∨
      ∃ ticks recordings, s.timers.advance r.elapsed = some (ticks, s'.timers) ∧
        s.recorder.advance r.elapsed = some (recordings, s'.recorder) := by
  cases h with
  | stopped htold ended =>
    have same := sameTime_told htold
    exact .inl ⟨same.timers, same.recorder⟩
  | @back ticks recordings s₁ _ _ hmove backwards settled =>
    have same := (sameTime_wentBack s₁ recordings).trans (sameTime_settle settled)
    rw [same.timers, same.recorder]
    exact .inr ⟨ticks, recordings, advance_of_atMove? hmove⟩
  | fault hmove forwards hcycle =>
    obtain ⟨htimers, hrecorder⟩ := advance_of_atMove? hmove
    exact .inr ⟨_, _, htimers, hrecorder⟩
  | forth hmove forwards hcycle settled =>
    have same := sameTime_settle settled
    obtain ⟨htimers, hrecorder⟩ := advance_of_atMove? hmove
    rw [same.timers, same.recorder]
    exact .inr ⟨_, _, htimers, hrecorder⟩

/-! ## What a turn executes -/

/-- The instruction that a turn executes, if it comes to one and that does not fault. -/
def instruction? (s : Session) (r : Round) : Option Instruction :=
  match s.atMove? r with
  | none => none
  | some (_, _, s₁) =>
    if r.poll.rewinding then none
    else
      match s₁.machine.cycle with
      | some (.ok _, _) => s₁.machine.next?
      | _ => none

section
variable {s s₁ : Session} {r : Round}

theorem atMove?_of_stopped {s' : Session} {outcome : Outcome}
    (htold : s.told r = some (outcome, s')) (ended : outcome ≠ .running) : s.atMove? r = none := by
  unfold atMove?
  rw [htold]
  cases outcome with
  | running => exact absurd rfl ended
  | quit | failed problem => rfl

theorem instruction?_of_stopped {s' : Session} {outcome : Outcome}
    (htold : s.told r = some (outcome, s')) (ended : outcome ≠ .running) :
    s.instruction? r = none := by
  rw [instruction?, atMove?_of_stopped htold ended]

variable {ticks recordings : Nat} (hmove : s.atMove? r = some (ticks, recordings, s₁))
include hmove

theorem cycles_atMove? : s₁.cycles = s.cycles := by
  obtain ⟨s₀, timers, recorder, htold, -, -, rfl⟩ := atMove?_eq_some_iff.1 hmove
  exact (sameTime_told htold).cycles

theorem instruction?_of_backwards (backwards : r.poll.rewinding = true) :
    s.instruction? r = none := by
  simp only [instruction?, hmove, backwards, if_true]

theorem instruction?_of_fault {f : Fault} {m : Machine}
    (hcycle : s₁.machine.cycle = some (.error f, m)) : s.instruction? r = none := by
  simp only [instruction?, hmove, hcycle, ite_self]

theorem instruction?_of_executed (forwards : r.poll.rewinding = false) {progress : Progress}
    {m : Machine} (hcycle : s₁.machine.cycle = some (.ok progress, m)) :
    s.instruction? r = s₁.machine.next? := by
  simp [instruction?, hmove, hcycle, forwards]

end

/-- A turn counts the instruction that it executes. -/
theorem Comes.cycles {s s' : Session} {r : Round} {outcome : Outcome} (h : s.Comes r outcome s') :
    s'.cycles = s.cycles + if (s.instruction? r).isSome then 1 else 0 := by
  cases h with
  | stopped htold ended =>
    rw [instruction?_of_stopped htold ended]
    exact (sameTime_told htold).cycles
  | @back ticks recordings s₁ _ _ hmove backwards settled =>
    rw [instruction?_of_backwards hmove backwards, ← cycles_atMove? hmove]
    exact ((sameTime_wentBack s₁ recordings).trans (sameTime_settle settled)).cycles
  | @fault ticks recordings s₁ f m hmove forwards hcycle =>
    have same : s₁.cycles = s.cycles := cycles_atMove? hmove
    rw [instruction?_of_fault hmove hcycle]
    exact same
  | forth hmove forwards hcycle settled =>
    obtain ⟨i, hi⟩ := Machine.exists_next?_of_ok hcycle
    rw [instruction?_of_executed hmove forwards hcycle, hi, ← cycles_atMove? hmove]
    exact (sameTime_settle settled).cycles

end Session

end Chip8
