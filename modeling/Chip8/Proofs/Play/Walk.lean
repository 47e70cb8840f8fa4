import Chip8.Proofs.Play.Cadence
import Chip8.Proofs.Play.History
import Chip8.Proofs.Play.Rounds

/-!
# Walking back

While the machine goes backwards, all that happens to it is done by the history.  Any run of a
session comes down to calls on its history (`recalled?` for each turn): a turn forwards may record the
machine it leaves, a turn backwards may rewind, and commands, failures and devices do neither.

    s.rounds rounds = some (outcomes, s') → s'.history = (s.history.run (s.recalls rounds)).2
                                                                              (history_rounds)

With the calls of a whole run on an undo stack, `handed n` is what the next `n` rewinds come to.  It
is the machine after turns backwards in `n` of which a recording was due (`walk_back`).
-/

namespace Chip8

/-! ## Rewinds in a row -/

namespace Recall

variable {α σ : Type}

theorem runWith_append (call : σ → Recall α → Option α × σ) (s : σ)
    (calls later : List (Recall α)) :
    (runWith call s (calls ++ later)).2 = (runWith call (runWith call s calls).2 later).2 := by
  induction calls generalizing s with
  | nil => rfl
  | cons c calls ih => exact ih (call s c).2

end Recall

namespace UndoStack

variable {α : Type}

/-- What the last of so many rewinds answers, or an earlier one if it has no answer. -/
def handed (s : UndoStack α) : Nat → Option α
  | 0 => none
  | n + 1 => (s.rewind.2.handed n).or s.rewind.1

/-- With nothing left, what was popped last is handed out again. -/
theorem handed_used_up {s : UndoStack α} (empty : s.entries = []) {n : Nat} (hn : 0 < n) :
    s.handed n = s.popped := by
  have stays : s.rewind = (s.popped, s) := by
    unfold rewind
    rw [empty]
  induction n with
  | zero => omega
  | succ n ih =>
    rw [handed, stays]
    show (s.handed n).or s.popped = s.popped
    cases n with
    | zero => rfl
    | succ n => rw [ih (Nat.succ_pos n), Option.or_self]

/-- The entries are handed out newest first, the oldest of them for ever. -/
theorem handed_of_getElem? {s : UndoStack α} {n : Nat} {a : α} (hn : 0 < n)
    (ha : s.entries[min n s.entries.length - 1]? = some a) : s.handed n = some a := by
  induction n generalizing s with
  | zero => omega
  | succ n ih =>
    cases hs : s.entries with
    | nil =>
      rw [hs] at ha
      cases ha
    | cons newest older =>
      have pops : s.rewind = (some newest, { s with entries := older, popped := some newest }) := by
        unfold rewind
        rw [hs]
      rw [hs, List.length_cons] at ha
      rw [handed, pops]
      cases n with
      | zero =>
        rw [Nat.min_eq_left (by omega)] at ha
        exact ha
      | succ n =>
        cases older with
        | nil =>
          rw [handed_used_up rfl (Nat.succ_pos n)]
          have place : min (n + 1 + 1) (0 + 1) - 1 = 0 := by omega
          rw [List.length_nil, place] at ha
          exact ha
        | cons next older =>
          have place : min (n + 1 + 1) ((next :: older).length + 1) - 1 =
              min (n + 1) (next :: older).length - 1 + 1 := by
            rw [List.length_cons]
            omega
          rw [place, List.getElem?_cons_succ] at ha
          rw [ih (s := { s with entries := next :: older, popped := some newest })
            (Nat.succ_pos n) ha]
          rfl

/-- Nothing is left of no recording at all. -/
theorem run_unrecorded {capacity : Nat} {calls : List (Recall α)}
    (unrecorded : ∀ a, .record a ∉ calls) :
    ((empty capacity).run calls).2 = (empty capacity : UndoStack α) := by
  induction calls with
  | nil => rfl
  | cons c later ih =>
    have later : ∀ a, .record a ∉ later := fun a h => unrecorded a (List.mem_cons_of_mem _ h)
    cases c with
    | record a => exact absurd List.mem_cons_self (unrecorded a)
    | rewind | clear => exact ih later

end UndoStack

/-- A machine apart from its keys and whether its screen was shown. -/
def Machine.bare (m : Machine) : Machine := (m.setKeypad .released).markShown

theorem Machine.bare_congr {m m' : Machine} (h : m.markShown = m'.markShown) : m.bare = m'.bare :=
  congrArg (·.setKeypad .released) h

theorem Machine.bare_getD {m m' : Machine} (h : m.bare = m'.bare) (handed : Option Machine) :
    (handed.getD m).bare = (handed.getD m').bare := by
  cases handed with
  | none => exact h
  | some m => rfl

/-! ## What turns do with the history -/

namespace Session

/-- The call of a turn on the history. -/
def recalled? (s : Session) (r : Round) : Option (Recall Machine) :=
  match s.atMove? r with
  | none => none
  | some (ticks, recordings, s₁) =>
    if recordings = 0 then none
    else if r.poll.rewinding then some .rewind
    else
      match s₁.machine.cycle with
      | some (.ok _, m) => some (.record (m.tickTimers ticks))
      | _ => none

/-- The calls of turns on the history, in order. -/
def recalls (s : Session) : List Round → List (Recall Machine)
  | [] => []
  | r :: later =>
    (s.recalled? r).toList ++
      match s.step r.poll r.elapsed r.broken with
      | some (_, s) => s.recalls later
      | none => []

theorem recalls_cons {s s₁ : Session} {r : Round} {outcome : Outcome}
    (hstep : s.step r.poll r.elapsed r.broken = some (outcome, s₁)) (later : List Round) :
    s.recalls (r :: later) = (s.recalled? r).toList ++ s₁.recalls later := by
  rw [recalls, hstep]

theorem history_settle (s : Session) (broken : Option DeviceCall) :
    (s.settle broken).2.history = s.history := by
  unfold settle sound refresh redraw
  grind

theorem history_told {s s' : Session} {r : Round} {outcome : Outcome}
    (htold : s.told r = some (outcome, s')) : s'.history = s.history :=
  (unmoved_obey (s := s.withKeys r.poll.keypad) htold).1.history

/-- Time, commands and devices leave the history alone. -/
theorem history_atMove? {s s₁ : Session} {r : Round} {ticks recordings : Nat}
    (hmove : s.atMove? r = some (ticks, recordings, s₁)) : s₁.history = s.history := by
  obtain ⟨s₀, timers, recorder, htold, -, -, rfl⟩ := atMove?_eq_some_iff.1 hmove
  have told : s₀.history = s.history := history_told htold
  exact told

theorem history_wentBack (s : Session) (recordings : Nat) :
    (s.wentBack recordings).history = if recordings = 0 then s.history else s.history.rewind.2 := by
  unfold wentBack goBack
  split
  · rfl
  · rcases s.history.rewind with ⟨_ | m, history⟩ <;> rfl

theorem bare_wentBack (s : Session) (recordings : Nat) :
    (s.wentBack recordings).machine.bare =
      ((if recordings = 0 then none else s.history.rewind.1).getD s.machine).bare := by
  unfold wentBack goBack
  split
  · rfl
  · rcases s.history.rewind with ⟨_ | m, history⟩ <;> rfl

theorem recalled?_of_stopped {s s' : Session} {r : Round} {outcome : Outcome}
    (htold : s.told r = some (outcome, s')) (ended : outcome ≠ .running) :
    s.recalled? r = none := by
  rw [recalled?, atMove?_of_stopped htold ended]

theorem recalled?_of_backwards {s s₁ : Session} {r : Round} {ticks recordings : Nat}
    (hmove : s.atMove? r = some (ticks, recordings, s₁)) (backwards : r.poll.rewinding = true) :
    s.recalled? r = if recordings = 0 then none else some .rewind := by
  rw [recalled?, hmove]
  simp only [backwards, if_true]

theorem recalled?_of_executed {s s₁ : Session} {r : Round} {ticks recordings : Nat}
    (hmove : s.atMove? r = some (ticks, recordings, s₁)) (forwards : r.poll.rewinding = false)
    {progress : Progress} {m : Machine} (hcycle : s₁.machine.cycle = some (.ok progress, m)) :
    s.recalled? r = if recordings = 0 then none else some (.record (m.tickTimers ticks)) := by
  rw [recalled?, hmove]
  simp only [forwards, hcycle, Bool.false_eq_true, if_false]

theorem recalled?_of_fault {s s₁ : Session} {r : Round} {ticks recordings : Nat}
    (hmove : s.atMove? r = some (ticks, recordings, s₁)) (forwards : r.poll.rewinding = false)
    {f : Fault} {m : Machine} (hcycle : s₁.machine.cycle = some (.error f, m)) :
    s.recalled? r = none := by
  rw [recalled?, hmove]
  simp only [forwards, hcycle, Bool.false_eq_true, if_false, ite_self]

theorem history_comes {s s' : Session} {r : Round} {outcome : Outcome}
    (h : s.Comes r outcome s') : s'.history = (s.history.run (s.recalled? r).toList).2 := by
  cases h with
  | stopped htold ended =>
    rw [recalled?_of_stopped htold ended]
    exact history_told htold
  | @back ticks recordings s₁ _ _ hmove backwards settled =>
    have kept := history_settle (s₁.wentBack recordings) r.broken
    rw [settled, history_wentBack, history_atMove? hmove] at kept
    rw [kept, recalled?_of_backwards hmove backwards]
    split <;> rfl
  | fault hmove forwards hcycle =>
    have kept := history_atMove? hmove
    rw [recalled?_of_fault hmove forwards hcycle]
    exact kept
  | @forth ticks recordings s₁ _ m _ _ hmove forwards hcycle settled =>
    have kept := history_settle (s₁.executed (m.tickTimers ticks) recordings) r.broken
    rw [settled, executed, history_atMove? hmove] at kept
    rw [kept, recalled?_of_executed hmove forwards hcycle]
    split <;> rfl

/-- A run of turns is a run of calls on the history. -/
theorem history_rounds {s s' : Session} {rounds : List Round} {outcomes : List Outcome}
    (hrun : s.rounds rounds = some (outcomes, s')) :
    s'.history = (s.history.run (s.recalls rounds)).2 := by
  induction rounds generalizing s outcomes with
  | nil => cases hrun; rfl
  | cons r later ih =>
    obtain ⟨outcome, s₁, after, hstep, hlater, -⟩ := rounds_cons_eq_some_iff.1 hrun
    rw [ih hlater, history_comes (comes_of_step hstep), recalls_cons hstep]
    exact (Recall.runWith_append History.call s.history _ _).symm

/-- What is recorded is the machine as its turn leaves it. -/
theorem machine_of_recalled? {s s' : Session} {r : Round} {outcome : Outcome} {m : Machine}
    (hstep : s.step r.poll r.elapsed r.broken = some (outcome, s'))
    (hrecall : s.recalled? r = some (.record m)) : s'.machine.markShown = m.markShown := by
  cases comes_of_step hstep with
  | stopped htold ended =>
    rw [recalled?_of_stopped htold ended] at hrecall
    cases hrecall
  | back hmove backwards settled =>
    rw [recalled?_of_backwards hmove backwards] at hrecall
    split at hrecall <;> cases hrecall
  | fault hmove forwards hcycle =>
    rw [recalled?_of_fault hmove forwards hcycle] at hrecall
    cases hrecall
  | @forth ticks recordings s₁ _ m₁ _ _ hmove forwards hcycle settled =>
    rw [recalled?_of_executed hmove forwards hcycle] at hrecall
    split at hrecall <;> cases hrecall
    have left := course_settle (s₁.executed (m₁.tickTimers ticks) recordings) r.broken
    rw [settled] at left
    exact congrArg Course.machine left

/-! ## Turns backwards -/

/-- A turn backwards without commands changes its machine only where a recording is due and the
history has one to hand out. -/
theorem exists_step_backwards {s : Session} {r : Round} (backwards : r.poll.rewinding = true)
    (silent : r.poll.commands = []) {ticks recordings : Nat} {timers recorder : Cadence}
    (htimers : s.timers.advance r.elapsed = some (ticks, timers))
    (hrecorder : s.recorder.advance r.elapsed = some (recordings, recorder)) :
    ∃ outcome s', s.step r.poll r.elapsed r.broken = some (outcome, s') ∧
      outcome.fault? = none ∧ s'.cycles = s.cycles ∧ s'.timers = timers ∧ s'.recorder = recorder ∧
      s.recalled? r = (if recordings = 0 then none else some .rewind) ∧
      s'.machine.bare =
        ((if recordings = 0 then none else s.history.rewind.1).getD s.machine).bare := by
  have told : s.told r = some (.running, s.withKeys r.poll.keypad) := by
    rw [told, silent]
    rfl
  have hmove := atMove?_eq_some_iff.2 ⟨_, timers, recorder, told, htimers, hrecorder, rfl⟩
  let s₁ : Session := { s.withKeys r.poll.keypad with timers, recorder }
  obtain ⟨outcome, s', hsettle⟩ : ∃ outcome s',
      (s₁.wentBack recordings).settle r.broken = (outcome, s') := ⟨_, _, rfl⟩
  have same := (sameTime_wentBack s₁ recordings).trans (sameTime_settle hsettle)
  have nofault := fault?_settle (s₁.wentBack recordings) r.broken
  have settled := course_settle (s₁.wentBack recordings) r.broken
  rw [hsettle] at nofault settled
  refine ⟨outcome, s', ?_, nofault, same.cycles, same.timers, same.recorder, ?_, ?_⟩
  · rw [step_of_atMove? hmove, backwards, if_pos rfl]
    exact congrArg some hsettle
  · exact recalled?_of_backwards hmove backwards
  · rw [Machine.bare_congr (congrArg Course.machine settled), bare_wentBack]
    have keyed : (s.machine.setKeypad r.poll.keypad).bare = s.machine.bare := rfl
    exact Machine.bare_getD keyed _

/-- By induction on the turns: each rewinds once if a recording is due, and the history goes on
standing for the same stack as the rewinds go through. -/
theorem exists_walk {s : Session} {past : UndoStack Machine} (hpast : s.history.Represents past)
    {walk : List Round} (hwalk : ∀ r ∈ walk, r.poll.rewinding = true ∧ r.poll.commands = [])
    {ticks recordings : List Nat} {timers recorder : Cadence}
    (hticks : s.timers.advanceAll (walk.map (·.elapsed)) = some (ticks, timers))
    (hrecordings : s.recorder.advanceAll (walk.map (·.elapsed)) = some (recordings, recorder)) :
    ∃ outcomes s', s.rounds walk = some (outcomes, s') ∧ (∀ o ∈ outcomes, o.fault? = none) ∧
      s'.cycles = s.cycles ∧
      s.recalls walk = List.replicate (recordings.countP (0 < ·)) .rewind ∧
      s'.machine.bare = ((past.handed (recordings.countP (0 < ·))).getD s.machine).bare := by
  induction walk generalizing s past ticks recordings with
  | nil =>
    cases hrecordings
    exact ⟨[], s, rfl, by simp, rfl, rfl, rfl⟩
  | cons r later ih =>
    obtain ⟨tick, timers₁, ticks, htick, hticks, rfl⟩ := Cadence.advanceAll_cons_eq_some_iff.1 hticks
    obtain ⟨due, recorder₁, recordings, hdue, hrecordings, rfl⟩ :=
      Cadence.advanceAll_cons_eq_some_iff.1 hrecordings
    rw [List.forall_mem_cons] at hwalk
    obtain ⟨⟨backwards, silent⟩, hwalk⟩ := hwalk
    obtain ⟨outcome, s₁, hstep, nofault, hcycles, rfl, rfl, hrecall, hmachine⟩ :=
      exists_step_backwards backwards silent htick hdue
    have hpast₁ : s₁.history.Represents (past.run (s.recalled? r).toList).2 := by
      rw [history_comes (comes_of_step hstep)]
      exact (hpast.run _).2
    obtain ⟨outcomes, s', hrun, nofaults, hcycles', hrecalls, hmachine'⟩ :=
      ih hpast₁ hwalk hticks hrecordings
    have hrounds := rounds_cons_eq_some_iff.2 ⟨outcome, s₁, outcomes, hstep, hrun, rfl⟩
    refine ⟨outcome :: outcomes, s', hrounds, List.forall_mem_cons.2 ⟨nofault, nofaults⟩,
      hcycles'.trans hcycles, ?_⟩
    rw [recalls_cons hstep, hrecalls, hmachine', hrecall, List.countP_cons]
    by_cases idle : due = 0
    · subst idle
      exact ⟨rfl, Machine.bare_getD hmachine _⟩
    · have rewinds : (due :: recordings).countP (0 < ·) = recordings.countP (0 < ·) + 1 :=
        List.countP_cons_of_pos (by simpa using Nat.pos_of_ne_zero idle)
      rw [if_neg idle] at hmachine ⊢
      rw [← List.countP_cons, rewinds]
      refine ⟨rfl, ?_⟩
      rw [UndoStack.handed, ← hpast.rewind.1, Option.getD_or]
      exact Machine.bare_getD hmachine _

theorem history_start {settings : Settings} {machine : Machine} {slots : Slots} {disk : Disk}
    {s : Session} (hstart : start settings machine slots disk = some (.ok s)) :
    0 < settings.rewindBufferSize.toNat ∧
      s.history = .empty settings.rewindBufferSize.toNat := by
  have full := Nat.pos_of_ne_zero
    (Settings.valueOf_ne_zero (start_eq_some_ok hstart).1 .rewindBufferSize)
  refine ⟨full, ?_⟩
  unfold start at hstart
  split at hstart
  · cases hstart
  · obtain ⟨history, hroom, hs⟩ := Option.map_eq_some_iff.1 hstart
    cases hs
    unfold History.ofCapacity? at hroom
    split at hroom <;> cases hroom
    rfl

/-! ## Main statement -/

/-- After any run of a session, let `past` be the recordings not yet gone back over, as they are
left on a bounded undo stack.  Turns backwards without commands, whatever times they take and
whichever devices fail, all have an outcome that is no fault as long as their ticks fit.  They
execute nothing and record nothing.  Each in which a recording is due rewinds once; `back` of them
leave the machine at recording `back` of `past`, the newest being the first, or at the oldest if
there are fewer.  A machine of which nothing was recorded stays where it is.  This holds
of every part of a walk too, so it says where each turn leaves the machine. -/
theorem walk_back {settings : Settings} {machine : Machine} {slots : Slots} {disk : Disk}
    {s s₁ : Session} (hstart : start settings machine slots disk = some (.ok s))
    {rounds : List Round} {outcomes : List Outcome} (hrun : s.rounds rounds = some (outcomes, s₁))
    {walk : List Round} (hwalk : ∀ r ∈ walk, r.poll.rewinding = true ∧ r.poll.commands = [])
    {ticks recordings : List Nat} {timers recorder : Cadence}
    (hticks : s₁.timers.advanceAll (walk.map (·.elapsed)) = some (ticks, timers))
    (hrecordings : s₁.recorder.advanceAll (walk.map (·.elapsed)) = some (recordings, recorder)) :
    let past := ((UndoStack.empty settings.rewindBufferSize.toNat).run (s.recalls rounds)).2
    let back := recordings.countP (0 < ·)
    past.entries.length ≤ settings.rewindBufferSize.toNat ∧
    ∃ outcomes' s₂, s₁.rounds walk = some (outcomes', s₂) ∧ (∀ o ∈ outcomes', o.fault? = none) ∧
      s₂.cycles = s₁.cycles ∧ s₁.recalls walk = List.replicate back .rewind ∧
      (back = 0 → s₂.machine.bare = s₁.machine.bare) ∧
      (∀ m, 0 < back → past.entries[min back past.entries.length - 1]? = some m →
        s₂.machine.bare = m.bare) ∧
      (∀ m, 0 < back → past.entries = [] → past.popped = some m → s₂.machine.bare = m.bare) ∧
      ((∀ m, .record m ∉ s.recalls rounds) → s₂.machine.bare = s₁.machine.bare) := by
  intro past back
  obtain ⟨room, empty⟩ := history_start hstart
  have hpast : s₁.history.Represents past := by
    rw [history_rounds hrun, empty]
    exact ((History.represents_empty room).run _).2
  have kept : past.capacity = settings.rewindBufferSize.toNat := UndoStack.capacity_run _ _
  obtain ⟨outcomes', s₂, hwalked, nofaults, hcycles, hrecalls, hmachine⟩ :=
    exists_walk hpast hwalk hticks hrecordings
  refine ⟨Nat.le_trans hpast.bounded (Nat.le_of_eq kept), outcomes', s₂, hwalked, nofaults, hcycles,
    hrecalls, ?_, ?_, ?_, ?_⟩
  · intro idle
    rw [hmachine, show recordings.countP (0 < ·) = 0 from idle]
    rfl
  · intro m due hm
    rw [hmachine, UndoStack.handed_of_getElem? due hm]
    rfl
  · intro m due none hm
    rw [hmachine, UndoStack.handed_used_up none due, hm]
    rfl
  · intro unrecorded
    have nothing : past = .empty _ := UndoStack.run_unrecorded unrecorded
    rw [hmachine, nothing]
    cases recordings.countP (0 < ·) with
    | zero => rfl
    | succ n =>
      rw [UndoStack.handed_used_up rfl (Nat.succ_pos n)]
      rfl

/-- A second forwards, and then backwards: no time, and twice a second. -/
theorem walk_back_second :
    let forwards : Round := ⟨⟨.released, [], false⟩, second, none⟩
    let backwards (elapsed : Nat) : Round := ⟨⟨.ofKeys [5], [], true⟩, elapsed, some .draw⟩
    let walk := [backwards 0, backwards second, backwards second]
    (∀ r ∈ walk, r.poll.rewinding = true ∧ r.poll.commands = []) ∧
    ∃ s s₁ m outcome outcomes s₂,
      start .default (.ofSeed ⟨false, false⟩ 3) ⟨⟨"saves"⟩, "pong", 6, 0⟩ .blank = some (.ok s) ∧
      s.rounds [forwards] = some ([outcome], s₁) ∧ s.recalls [forwards] = [.record m] ∧
      s₁.rounds walk = some (outcomes, s₂) ∧ s₂.cycles = 1 ∧ s₂.machine.bare = m.bare := by
  intro forwards backwards walk
  have hwalk : ∀ r ∈ walk, r.poll.rewinding = true ∧ r.poll.commands = [] := by decide
  obtain ⟨s, hstart⟩ := exists_start Settings.firstZero?_default (by decide)
    (.ofSeed ⟨false, false⟩ 3) ⟨⟨"saves"⟩, "pong", 6, 0⟩ .blank
  obtain ⟨-, hmachine, -, -, hcycles, htimers, hrecorder⟩ := start_eq_some_ok hstart
  have htick : s.timers.advance second = some (60, ⟨16666666, 40⟩) := by
    rw [htimers]
    decide
  have hdue : s.recorder.advance second = some (60, ⟨16666666, 40⟩) := by
    rw [hrecorder]
    decide
  obtain ⟨m, hcycle, -⟩ := Machine.exists_cycle_ofSeed ⟨false, false⟩ 3 .released
  rw [← hmachine] at hcycle
  have told : s.told forwards = some (.running, s.withKeys .released) := rfl
  have hmove := atMove?_eq_some_iff.2 ⟨_, _, _, told, htick, hdue, rfl⟩
  have hstep := step_of_executed hmove rfl hcycle
  have hrecall := recalled?_of_executed hmove rfl hcycle
  rcases hsettle : Session.settle _ forwards.broken with ⟨outcome, s₁⟩
  rw [hsettle] at hstep
  have same := sameTime_settle hsettle
  have hrun : s.rounds [forwards] = some ([outcome], s₁) :=
    rounds_cons_eq_some_iff.2 ⟨outcome, s₁, [], hstep, rfl, rfl⟩
  have hrecalls : s.recalls [forwards] = [.record (m.tickTimers 60)] := by
    rw [recalls_cons hstep, hrecall]
    rfl
  have ticked : s₁.timers = ⟨16666666, 40⟩ := same.timers
  have recorded : s₁.recorder = ⟨16666666, 40⟩ := same.recorder
  have due : (⟨16666666, 40⟩ : Cadence).advanceAll (walk.map (·.elapsed)) =
      some ([0, 60, 60], ⟨16666666, 120⟩) := by
    decide
  have hticks := due
  rw [← ticked] at hticks
  have hrecordings := due
  rw [← recorded] at hrecordings
  obtain ⟨-, outcomes, s₂, hwalked, -, hcycles', -, -, handed, -⟩ :=
    walk_back hstart hrun hwalk hticks hrecordings
  rw [hrecalls] at handed
  have counted : s₁.cycles = 1 := by
    rw [same.cycles]
    show s.cycles + 1 = 1
    rw [hcycles]
  exact ⟨hwalk, s, s₁, _, outcome, outcomes, s₂, hstart, hrun, hrecalls, hwalked,
    hcycles'.trans counted, handed _ (by decide) rfl⟩

end Session

end Chip8
