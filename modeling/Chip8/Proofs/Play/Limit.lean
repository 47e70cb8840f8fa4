import Chip8.Proofs.Play.Ending

/-!
# The limit on instructions

A run looks at its limit after a turn and before the next.  A turn executes one instruction at most,
so a run that begins below the limit comes to it one by one: it never goes past it, and where it ends
well without the player quitting it ends on it.  A run that begins on the limit has taken a turn before
it looks, and is one past it if that turn executes an instruction (`run_limit`):

    s.cycles ≤ limit → s.run (some limit) rounds = some (ending, s') →
      (s'.cycles ≤ limit ↔ s.cycles < limit ∨ the first turn executes nothing)

`Session.run` is the main loop with whatever comes in from outside laid out in a list; the loop of a
console is that with what its own controls give (`Console.run_eq`).
-/

namespace Chip8

namespace Session

/-! ## Runs of a session -/

/-- A turn and its input device.  Where that fails, nothing of it is read. -/
def hear (s : Session) (r : Round) : Option (Outcome × Session) :=
  if r.broken = some .keypad then some (.failed (.device .keypad), s)
  else s.step r.poll r.elapsed r.broken

/-- Stops the tone at the end of a run. -/
def silence (s : Session) (broken : Option DeviceCall) : Ending × Session :=
  match s.sound false broken with
  | .ok s => (.finished, s)
  | .error problem => (.failed problem, s)

/-- Turn after turn until one fails, the player quits, or the limit is reached. -/
def run (s : Session) (limit : Option Nat) : List Round → Option (Ending × Session)
  | [] => some (.stillRunning, s)
  | r :: later => do
    match ← s.hear r with
    | (.failed problem, s) => return (.failed problem, s)
    | (.quit, s) => return s.silence r.broken
    | (.running, s) =>
      if limit.any (· ≤ s.cycles) then return s.silence r.broken
      else s.run limit later

/-- A turn that comes to executing an instruction. -/
def executes (s : Session) (r : Round) : Bool :=
  r.broken != some .keypad && (s.instruction? r).isSome

end Session

/-- What controls give in turns of these times. -/
def Controls.rounds (k : Controls) (broken : Option DeviceCall) : List Nat → List Round
  | [] => []
  | elapsed :: later => ⟨k.poll.1, elapsed, broken⟩ :: k.poll.2.rounds broken later

theorem Console.silence_eq_silence (c : Console) (broken : Option DeviceCall) :
    Prod.map id Console.session (c.silence broken) = c.session.silence broken := by
  unfold Console.silence Session.silence
  cases c.session.sound false broken <;> rfl

/-- A console runs its session with what its controls give. -/
theorem Console.run_eq (c : Console) (limit : Option Nat) (broken : Option DeviceCall)
    (times : List Nat) :
    (c.run limit broken times).map (Prod.map id Console.session) =
      c.session.run limit (c.controls.rounds broken times) := by
  induction times generalizing c with
  | nil => rfl
  | cons elapsed later ih =>
    rw [Controls.rounds, Console.run, Session.run, Console.step, Session.hear]
    by_cases mute : broken = some .keypad
    · rw [if_pos mute, if_pos mute]
      rfl
    · rw [if_neg mute, if_neg mute]
      simp only
      rcases c.session.step c.controls.poll.1 elapsed broken with _ | ⟨outcome, s⟩
      · rfl
      · have silent := silence_eq_silence ⟨s, c.controls.poll.2⟩ broken
        cases outcome with
        | failed problem => rfl
        | quit => exact congrArg some silent
        | running =>
          by_cases reached : limit.any (· ≤ s.cycles) = true
          · simp [reached, silent]
          · simp [reached, ih]

namespace Session

/-! ## One turn -/

theorem quit_mem_of_obey {s s' : Session} {broken : Option DeviceCall} {commands : List Command}
    (h : s.obey broken commands = some (.quit, s')) : .quit ∈ commands := by
  induction commands generalizing s with
  | nil => cases h
  | cons c later ih =>
    by_cases hc : c = .quit
    · rw [hc]
      exact List.mem_cons_self
    · rw [obey_cons hc, Option.bind_eq_some_iff] at h
      obtain ⟨s₁, -, h⟩ := h
      split at h
      · exact List.mem_cons_of_mem _ (ih h)
      · cases h

theorem settle_ne_quit (s : Session) (broken : Option DeviceCall) :
    (s.settle broken).1 ≠ .quit := by
  unfold settle
  split
  · simp
  · split <;> simp

/-- Only a command quits. -/
theorem quit_mem_of_hear {s s' : Session} {r : Round} (h : s.hear r = some (.quit, s')) :
    .quit ∈ r.poll.commands := by
  unfold hear at h
  split at h
  · cases h
  · cases comes_of_step h with
    | stopped htold ended => exact quit_mem_of_obey htold
    | back hmove backwards settled => exact absurd (congrArg Prod.fst settled) (settle_ne_quit _ _)
    | forth hmove forwards hcycle settled =>
      exact absurd (congrArg Prod.fst settled) (settle_ne_quit _ _)

theorem cycles_hear {s s' : Session} {r : Round} {outcome : Outcome}
    (h : s.hear r = some (outcome, s')) :
    s'.cycles = s.cycles + if s.executes r then 1 else 0 := by
  unfold hear at h
  split at h
  · next mute =>
    cases h
    simp [executes, mute]
  · next heard =>
    rw [(comes_of_step h).cycles]
    simp [executes, heard]

theorem cycles_silence {s s' : Session} {broken : Option DeviceCall} {ending : Ending}
    (h : s.silence broken = (ending, s')) : s'.cycles = s.cycles ∧ ending ≠ .stillRunning := by
  unfold silence at h
  split at h
  · next s₁ hsound =>
    cases h
    exact ⟨congrArg Course.cycles (course_sound hsound), by simp⟩
  · cases h
    exact ⟨rfl, by simp⟩

/-! ## Many turns -/

section
variable {s s' : Session} {limit : Nat} {ending : Ending}

/-- What a run can come to at its next turn. -/
theorem run_cons_cases {r : Round} {later : List Round}
    (h : s.run (some limit) (r :: later) = some (ending, s')) :
    ∃ outcome s₁, s.hear r = some (outcome, s₁) ∧
      ((∃ problem, outcome = .failed problem ∧ ending = .failed problem ∧ s' = s₁) ∨
        outcome = .quit ∧ s₁.silence r.broken = (ending, s') ∨
        outcome = .running ∧ limit ≤ s₁.cycles ∧ s₁.silence r.broken = (ending, s') ∨
        outcome = .running ∧ s₁.cycles < limit ∧
          s₁.run (some limit) later = some (ending, s')) := by
  simp only [run, Option.bind_eq_bind, Option.bind_eq_some_iff, Prod.exists] at h
  obtain ⟨outcome, s₁, hhear, h⟩ := h
  refine ⟨outcome, s₁, hhear, ?_⟩
  cases outcome with
  | failed problem =>
    cases h
    exact .inl ⟨problem, rfl, rfl, rfl⟩
  | quit => exact .inr (.inl ⟨rfl, Option.some.inj h⟩)
  | running =>
    simp only [Option.any_some, decide_eq_true_eq] at h
    split at h
    · next reached => exact .inr (.inr (.inl ⟨rfl, reached, Option.some.inj h⟩))
    · next below => exact .inr (.inr (.inr ⟨rfl, Nat.lt_of_not_le below, h⟩))

theorem run_cons_of_below {s₁ : Session} {r : Round}
    (h : s.hear r = some (.running, s₁)) (below : s₁.cycles < limit) (later : List Round) :
    s.run (some limit) (r :: later) = s₁.run (some limit) later := by
  simp [run, h, Nat.not_le_of_lt below]

/-- Past the turn that reaches the limit a run does not go, whatever is still to come. -/
theorem run_cons_of_reached (reached : limit ≤ s.cycles) (r : Round) (later : List Round) :
    s.run (some limit) (r :: later) = s.run (some limit) [r] := by
  simp only [run]
  rcases hhear : s.hear r with _ | ⟨outcome, s₁⟩
  · rfl
  · have grows := cycles_hear hhear
    have stays : limit ≤ s₁.cycles := by omega
    cases outcome with
    | failed problem | quit => rfl
    | running => simp [stays]

/-- By induction on the rounds, from any session below the limit: no turn that the run goes on after
has reached it. -/
theorem run_below (below : s.cycles < limit) {rounds : List Round}
    (h : s.run (some limit) rounds = some (ending, s')) :
    s'.cycles ≤ limit ∧
    (ending = .finished → s'.cycles = limit ∨
      ∃ done r later s₁ s₂, rounds = done ++ r :: later ∧
        s.run (some limit) done = some (.stillRunning, s₁) ∧ s₁.hear r = some (.quit, s₂)) := by
  induction rounds generalizing s with
  | nil =>
    cases h
    exact ⟨Nat.le_of_lt below, by simp⟩
  | cons r later ih =>
    obtain ⟨outcome, s₁, hhear, h⟩ := run_cons_cases h
    have one : s₁.cycles ≤ limit := by
      have grows := cycles_hear hhear
      split at grows <;> omega
    rcases h with ⟨problem, -, rfl, rfl⟩ | ⟨rfl, hsilence⟩ | ⟨-, reached, hsilence⟩ |
      ⟨rfl, below₁, hlater⟩
    · exact ⟨one, by simp⟩
    · have still := (cycles_silence hsilence).1
      exact ⟨by omega, fun _ => .inr ⟨[], r, later, s, s₁, rfl, rfl, hhear⟩⟩
    · have still := (cycles_silence hsilence).1
      exact ⟨by omega, fun _ => .inl (by omega)⟩
    · obtain ⟨inside, finished⟩ := ih below₁ hlater
      refine ⟨inside, fun ended => (finished ended).imp_right ?_⟩
      rintro ⟨done, last, rest, s₂, s₃, rfl, hdone, hquit⟩
      refine ⟨r :: done, last, rest, s₂, s₃, rfl, ?_, hquit⟩
      rw [run_cons_of_below hhear below₁, hdone]

/-- On the limit, a run takes one turn and ends. -/
theorem run_reached (reached : s.cycles = limit) {r : Round} {later : List Round}
    (h : s.run (some limit) (r :: later) = some (ending, s')) :
    ending ≠ .stillRunning ∧ s'.cycles = limit + if s.executes r then 1 else 0 := by
  obtain ⟨outcome, s₁, hhear, h⟩ := run_cons_cases h
  have grows := cycles_hear hhear
  rw [reached] at grows
  rcases h with ⟨problem, -, rfl, rfl⟩ | ⟨-, hsilence⟩ | ⟨-, -, hsilence⟩ | ⟨-, below, -⟩
  · exact ⟨by simp, grows⟩
  · obtain ⟨still, ended⟩ := cycles_silence hsilence
    exact ⟨ended, still.trans grows⟩
  · obtain ⟨still, ended⟩ := cycles_silence hsilence
    exact ⟨ended, still.trans grows⟩
  · omega

/-! ## Main statement -/

/-- A run with a limit that the session has not gone past, whatever comes in and however much time
passes: it stays within the limit exactly if it begins below it or its first turn executes nothing.
From below it either ends on the limit or with a turn that a command quits, if it does not fail.  On
the limit it takes one turn of what comes in, and has then ended, with what that turn executes. -/
theorem run_limit (within : s.cycles ≤ limit) {rounds : List Round}
    (h : s.run (some limit) rounds = some (ending, s')) :
    (s'.cycles ≤ limit ↔
      s.cycles < limit ∨ ∀ r, rounds.head? = some r → s.executes r = false) ∧
    (s.cycles < limit → ending = .finished → s'.cycles = limit ∨
      ∃ done r later s₁ s₂, rounds = done ++ r :: later ∧
        s.run (some limit) done = some (.stillRunning, s₁) ∧
        .quit ∈ r.poll.commands ∧ s₁.hear r = some (.quit, s₂)) ∧
    (s.cycles = limit → ∀ r later, rounds = r :: later →
      s.run (some limit) rounds = s.run (some limit) [r] ∧ ending ≠ .stillRunning ∧
        s'.cycles = limit + if s.executes r then 1 else 0) := by
  refine ⟨?_, fun below ended => ?_, ?_⟩
  · rcases Nat.lt_or_eq_of_le within with below | reached
    · simp [below, (run_below below h).1]
    · cases rounds with
      | nil =>
        cases h
        simp [within]
      | cons r later =>
        rw [(run_reached reached h).2, reached]
        cases executed : s.executes r <;> simp [executed]
  · refine ((run_below below h).2 ended).imp_right ?_
    rintro ⟨done, r, later, s₁, s₂, hrounds, hdone, hquit⟩
    exact ⟨done, r, later, s₁, s₂, hrounds, hdone, quit_mem_of_hear hquit, hquit⟩
  · rintro reached r later rfl
    exact ⟨run_cons_of_reached (Nat.le_of_eq reached.symm) r later, run_reached reached h⟩

end

/-- A session that starts without a program, and its first turn. -/
theorem exists_first_turn :
    ∃ s m, start .default (.ofSeed ⟨false, false⟩ 3) ⟨⟨"saves"⟩, "pong", 6, 0⟩ .blank =
        some (.ok s) ∧ s.cycles = 0 ∧
      s.step ⟨.released, [], false⟩ 0 none = some (.running, s.afterStill m) := by
  obtain ⟨s, hstart⟩ := exists_start Settings.firstZero?_default (by decide)
    (.ofSeed ⟨false, false⟩ 3) ⟨⟨"saves"⟩, "pong", 6, 0⟩ .blank
  obtain ⟨-, hmachine, -, -, hcycles, -⟩ := start_eq_some_ok hstart
  obtain ⟨htimers, hrecorder⟩ := still_of_start hstart
  obtain ⟨m, hcycle, shown⟩ := Machine.exists_cycle_ofSeed ⟨false, false⟩ 3 .released
  rw [← hmachine] at hcycle
  exact ⟨s, m, hstart, hcycles, step_of_still s .released htimers hrecorder hcycle shown⟩

/-- A first turn that reaches the limit is the last one. -/
theorem run_of_first_turn {s s₁ : Session} {limit : Nat}
    (hstep : s.step ⟨.released, [], false⟩ 0 none = some (.running, s₁))
    (reached : limit ≤ s₁.cycles) (later : List Round) :
    s.run (some limit) (⟨⟨.released, [], false⟩, 0, none⟩ :: later) =
      some (.finished, { s₁ with tone := s₁.tone.follow false }) := by
  simp [run, hear, hstep, silence, sound_none, reached]

/-- One instruction under a limit of one, with time for another turn. -/
theorem run_limit_one :
    let r : Round := ⟨⟨.released, [], false⟩, 0, none⟩
    ∃ s s' : Session, s.cycles ≤ 1 ∧ s.run (some 1) [r, r] = some (.finished, s') ∧ s'.cycles ≤ 1 ∧
      (s'.cycles = 1 ∨ ∃ done last later s₁ s₂, [r, r] = done ++ last :: later ∧
        s.run (some 1) done = some (.stillRunning, s₁) ∧
        .quit ∈ last.poll.commands ∧ s₁.hear last = some (.quit, s₂)) := by
  intro r
  obtain ⟨s, m, -, hcycles, hstep⟩ := exists_first_turn
  have below : s.cycles < 1 := by omega
  have hrun : s.run (some 1) [r, r] = _ := run_of_first_turn hstep (Nat.le_add_left 1 s.cycles) [r]
  have limited := run_limit (Nat.le_of_lt below) hrun
  exact ⟨s, _, Nat.le_of_lt below, hrun, limited.1.2 (.inl below), limited.2.1 below rfl⟩

/-- A limit of no instructions at all lets one through. -/
theorem run_limit_none :
    ∃ s c', start .default (.ofSeed ⟨false, false⟩ 3) ⟨⟨"saves"⟩, "pong", 6, 0⟩ .blank =
        some (.ok s) ∧ s.cycles ≤ 0 ∧
      Console.run ⟨s, .script .idle⟩ (some 0) none [0] = some (.finished, c') ∧
      c'.session.cycles = 1 := by
  obtain ⟨s, m, hstart, hcycles, hstep⟩ := exists_first_turn
  have hrun := Console.run_eq ⟨s, .script .idle⟩ (some 0) none [0]
  have hturn : s.run (some 0) [⟨⟨.released, [], false⟩, 0, none⟩] = _ :=
    run_of_first_turn hstep (Nat.zero_le _) []
  obtain ⟨⟨ending, c'⟩, hrun, hsession⟩ := Option.map_eq_some_iff.1 (hrun.trans hturn)
  obtain ⟨rfl, left⟩ := Prod.mk.inj hsession
  have counted : c'.session.cycles = s.cycles + 1 := congrArg cycles left
  exact ⟨s, c', hstart, Nat.le_of_eq hcycles, hrun, by omega⟩

end Session

end Chip8
