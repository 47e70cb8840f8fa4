import Chip8.Proofs.Machine.Stale
import Chip8.Proofs.Machine.WellFormed
import Chip8.Proofs.Play.Cadence
import Chip8.Proofs.Play.Turn

/-!
# A session plays its machine

While nothing is loaded and the machine goes forwards, a session comes down to its machine alone,
which in each turn takes the keys, executes one instruction and lets its timers tick.  Turn by turn
they go in step (`course_step`), for machines that differ only in whether the screen was shown.  How
often the timers tick is told by the time that has passed in all, since a cadence loses none:

    ticks of a turn = (before + elapsed) / period - before / period          (Cadence.advance_mod)

Commands have a part in it only where a selection and the number of slots have no sum in 64 bits:

    (s.play turns).map seen = (slots.browse commands).bind fun _ =>
      (machine.play period 0 turns).map seen                                        (play_refines)
    slots.selected < slots.count → 2 * slots.count ≤ 2 ^ 64 →
      ∃ slots', slots.browse commands = some slots'                        (Slots.exists_browse)
-/

namespace Chip8

/-! ## Turns of a machine alone -/

/-- What a player does in a turn without going back. -/
structure Turn where
  keypad : Keypad
  commands : List Command
  /-- Time since the turn before. -/
  elapsed : Nat
  deriving DecidableEq, Repr

namespace Turn

def poll (t : Turn) : Poll := ⟨t.keypad, t.commands, false⟩

/-- Ticks of a cadence in a turn: the multiples of its period that time passes. -/
def due (t : Turn) (period before : Nat) : Nat :=
  (before + t.elapsed) / period - before / period

/-- Ticks of a cadence in each turn. -/
def dueEach (period : Nat) : Nat → List Turn → List Nat
  | _, [] => []
  | before, t :: later => t.due period before :: dueEach period (before + t.elapsed) later

/-- A cadence of so many ticks a second has a period, and the ticks of each turn fit 32 bits. -/
structure Paced (rate : UInt32) (turns : List Turn) : Prop where
  period : rate.toNat ≤ second
  fits : ∀ ticks ∈ dueEach (second / rate.toNat) 0 turns, ticks < UInt32.size

end Turn

namespace Machine

/-- A turn of a machine alone: the keys, one cycle, and the ticks after it.  A fault ends it. -/
def turn (m : Machine) (keypad : Keypad) (ticks : Nat) :
    Option (Except Fault Progress × Machine) :=
  (m.setKeypad keypad).cycle.map fun
    | (.ok progress, m) => (.ok progress, m.tickTimers ticks)
    | (.error f, m) => (.error f, m)

/-- Turns of a machine alone, whose timers tick at a period that began some time before. -/
def play (m : Machine) (period before : Nat) :
    List Turn → Option (List (Except Fault Progress) × Machine)
  | [] => some ([], m)
  | t :: later => do
    let (result, m) ← m.turn t.keypad (t.due period before)
    let (results, m) ← m.play period (before + t.elapsed) later
    return (result :: results, m)

theorem play_cons {m m₁ : Machine} {period before : Nat} {t : Turn}
    {result : Except Fault Progress}
    (h : m.turn t.keypad (t.due period before) = some (result, m₁)) (later : List Turn) :
    m.play period before (t :: later) =
      (m₁.play period (before + t.elapsed) later).map (Prod.map (result :: ·) id) := by
  rw [play, h]
  show (m₁.play period (before + t.elapsed) later).bind _ = _
  cases m₁.play period (before + t.elapsed) later <;> rfl

/-- A machine that was never read from a file goes on and on. -/
theorem WellFormed.exists_play {m : Machine} (hm : m.WellFormed) (period before : Nat)
    (turns : List Turn) : ∃ ended, m.play period before turns = some ended := by
  induction turns generalizing m before with
  | nil => exact ⟨_, rfl⟩
  | cons t later ih =>
    obtain ⟨result, m₁, hcycle, hm₁⟩ := WellFormed.exists_cycle (m := m.setKeypad t.keypad)
      { hm with }
    obtain ⟨m₂, hturn, hm₂⟩ : ∃ m₂, m.turn t.keypad (t.due period before) = some (result, m₂) ∧
        m₂.WellFormed := by
      rw [turn, hcycle]
      cases result with
      | ok progress => exact ⟨_, rfl, { hm₁ with }⟩
      | error f => exact ⟨m₁, rfl, hm₁⟩
    obtain ⟨ended, hended⟩ := ih hm₂ (before + t.elapsed)
    rw [play_cons hturn, hended]
    exact ⟨_, rfl⟩

end Machine

/-! ## Turns of a session -/

/-- The outcome of a turn that comes to a cycle, where devices work. -/
def Outcome.ofResult : Except Fault Progress → Outcome
  | .ok _ => running
  | .error f => failed (.fault f)

/-- Turns of a session, each with its outcome. -/
def Session.play (s : Session) : List Turn → Option (List Outcome × Session)
  | [] => some ([], s)
  | t :: later => do
    let (outcome, s) ← s.step t.poll t.elapsed none
    let (outcomes, s) ← s.play later
    return (outcome :: outcomes, s)

theorem Session.play_cons {s s₁ : Session} {t : Turn} {outcome : Outcome}
    (h : s.step t.poll t.elapsed none = some (outcome, s₁)) (later : List Turn) :
    s.play (t :: later) = (s₁.play later).map (Prod.map (outcome :: ·) id) := by
  rw [play, h]
  show (s₁.play later).bind _ = _
  cases s₁.play later <;> rfl

/-! ## Cadences -/

/-- A cadence keeps what is left of all the time that has passed. -/
theorem Cadence.advance_mod {period before : Nat} (t : Turn) (hperiod : 0 < period)
    (small : t.due period before < UInt32.size) :
    (⟨period, before % period⟩ : Cadence).advance t.elapsed =
      some (t.due period before, ⟨period, (before + t.elapsed) % period⟩) :=
  advance_of_due hperiod small

/-! ## Slots -/

namespace Slots

/-- The slots after commands, which can only select another one. -/
def browse (s : Slots) : List Command → Option Slots
  | [] => some s
  | .nextSlot :: later => s.selectNext.browse later
  | .previousSlot :: later => s.selectPrevious?.bind fun s => s.browse later
  | _ :: later => s.browse later

theorem browse_append (s : Slots) (commands later : List Command) :
    s.browse (commands ++ later) = (s.browse commands).bind fun s => s.browse later := by
  induction commands generalizing s with
  | nil => rfl
  | cons c commands ih =>
    cases c with
    | quit | save | load | nextSlot => exact ih _
    | previousSlot =>
      simp only [List.cons_append, browse, Option.bind_assoc]
      exact congrArg _ (funext ih)

/-- A remainder selects one of the slots. -/
theorem mod_count_lt {s : Slots} (hselected : s.selected < s.count) (a : UInt64) :
    a % s.count < s.count := by
  have hselected := UInt64.lt_iff_toNat_lt.1 hselected
  rw [UInt64.lt_iff_toNat_lt, UInt64.toNat_mod]
  exact Nat.mod_lt _ (Nat.zero_lt_of_lt hselected)

/-- Up to half of all numbers, a selection and the number of slots have a sum. -/
theorem exists_browse {s : Slots} (hselected : s.selected < s.count)
    (hcount : 2 * s.count.toNat ≤ UInt64.size) (commands : List Command) :
    ∃ s', s.browse commands = some s' := by
  induction commands generalizing s with
  | nil => exact ⟨s, rfl⟩
  | cons c later ih =>
    cases c with
    | quit | save | load => exact ih hselected hcount
    | nextSlot => exact ih (s := s.selectNext) (mod_count_lt hselected _) hcount
    | previousSlot =>
      have fits : s.selected.toNat + s.count.toNat < UInt64.size := by
        have := UInt64.lt_iff_toNat_lt.1 hselected
        omega
      rw [browse, selectPrevious?, if_pos fits, Option.bind_some]
      exact ih (s := { s with selected := _ }) (mod_count_lt hselected _) hcount

end Slots

namespace Session

/-! ## One turn -/

theorem course_command {s : Session} {c : Command} (hquit : c ≠ .quit) (hload : c ≠ .load) :
    (s.command c).map course = (s.slots.browse [c]).map fun slots => { s.course with slots } := by
  cases c with
  | quit => exact absurd rfl hquit
  | load => exact absurd rfl hload
  | save =>
    show some s.saveSlot.course = some s.course
    unfold saveSlot
    split <;> rfl
  | nextSlot => rfl
  | previousSlot =>
    simp only [command, Slots.browse]
    cases s.slots.selectPrevious? <;> rfl

/-- Commands that neither quit nor load only select slots. -/
theorem course_obey {s : Session} {commands : List Command}
    (calm : ∀ c ∈ commands, c ≠ .quit ∧ c ≠ .load) :
    (s.obey none commands).map (fun (outcome, s') => (outcome, s'.course)) =
      (s.slots.browse commands).map fun slots => (.running, { s.course with slots }) := by
  induction commands generalizing s with
  | nil => rfl
  | cons c later ih =>
    rw [List.forall_mem_cons] at calm
    obtain ⟨⟨hquit, hload⟩, calm⟩ := calm
    have hcourse := course_command (s := s) hquit hload
    have hbrowse := s.slots.browse_append [c] later
    rw [List.singleton_append] at hbrowse
    rw [obey_cons hquit, hbrowse]
    cases hcommand : s.command c with
    | none =>
      rw [hcommand, Option.map_none, eq_comm, Option.map_eq_none_iff] at hcourse
      rw [hcourse]
      rfl
    | some s₁ =>
      rw [hcommand, Option.map_some, eq_comm, Option.map_eq_some_iff] at hcourse
      obtain ⟨slots, hslots, hcourse⟩ := hcourse
      obtain ⟨s₂, hredraw⟩ : ∃ s₂, s₁.redraw none = .ok s₂ := ⟨_, rfl⟩
      have same : s₂.course = { s.course with slots } := (course_redraw hredraw).trans hcourse.symm
      have hslots₂ : s₂.slots = slots := congrArg Course.slots same
      simp only [Option.bind_some, hslots, hredraw]
      rw [ih calm, same, hslots₂]

/-- A turn that neither quits nor loads is a turn of the machine alone. -/
theorem course_step {s : Session} {m : Machine} (hm : s.machine.markShown = m.markShown) {t : Turn}
    (calm : ∀ c ∈ t.commands, c ≠ .quit ∧ c ≠ .load) {ticks recordings : Nat}
    {timers recorder : Cadence} (htimers : s.timers.advance t.elapsed = some (ticks, timers))
    (hrecorder : s.recorder.advance t.elapsed = some (recordings, recorder)) :
    (s.step t.poll t.elapsed none).map (fun (outcome, s') => (outcome, s'.course)) =
      (s.slots.browse t.commands).bind fun slots =>
        (m.turn t.keypad ticks).map fun (result, m) =>
          (.ofResult result,
            { machine := m.markShown, slots, timers, recorder,
              cycles := s.cycles + if result.isOk then 1 else 0 }) := by
  have hobey := course_obey (s := s.withKeys t.keypad) calm
  cases hbrowse : s.slots.browse t.commands with
  | none =>
    have stuck : (s.withKeys t.keypad).obey none t.commands = none := by
      rw [← Option.map_eq_none_iff, hobey]
      exact Option.map_eq_none_iff.2 hbrowse
    unfold withKeys at stuck
    simp [step, Turn.poll, stuck]
  | some slots =>
    have hslots : (s.withKeys t.keypad).slots.browse t.commands = some slots := hbrowse
    rw [hslots, Option.map_some, Option.map_eq_some_iff] at hobey
    obtain ⟨⟨outcome, s₁⟩, hobey, hcourse⟩ := hobey
    obtain ⟨rfl, hs₁⟩ := Prod.mk.inj hcourse
    have hcycle : s.atCycle? t.poll t.elapsed none = some s₁ :=
      atCycle?_eq_some_iff.2 ⟨hobey, rfl, by simp [htimers], by simp [hrecorder]⟩
    have hslots : s₁.slots = slots := congrArg Course.slots hs₁
    have hcycles : s₁.cycles = s.cycles := congrArg Course.cycles hs₁
    have alike : s₁.machine.markShown = (m.setKeypad t.keypad).markShown := by
      have hkeys : s₁.machine.markShown = (s.machine.setKeypad t.keypad).markShown :=
        congrArg Course.machine hs₁
      exact hkeys.trans (congrArg (·.setKeypad t.keypad) hm)
    rw [step_of_atCycle? hcycle htimers hrecorder, Option.bind_some, Machine.turn, ← hslots,
      ← hcycles]
    rcases Machine.cycle_congr alike with ⟨h, h'⟩ | ⟨result, m₁, m₁', h, h', alike⟩
    · rw [h, h']
      rfl
    · rw [h, h']
      cases result with
      | error f =>
        simp only [Option.map_some, ← alike]
        rfl
      | ok progress =>
        have hticks : (m₁.tickTimers ticks).markShown = (m₁'.tickTimers ticks).markShown :=
          congrArg (·.tickTimers ticks) alike
        simp only [Option.map_some, ← hticks]
        exact congrArg some (Prod.ext (settle_none _) (course_settle _ none))

/-! ## Many turns -/

/-- Both cadences have run for so long. -/
structure Timed (s : Session) (period recording before : Nat) : Prop where
  timers : s.timers = ⟨period, before % period⟩
  recorder : s.recorder = ⟨recording, before % recording⟩

/-- By induction on the turns, from any session whose cadences have run as long as the machine's
timers and whose machine is the one alone, shown or not. -/
theorem play_eq {period recording : Nat} (hperiod : 0 < period) (hrecording : 0 < recording)
    {turns : List Turn} (calm : ∀ t ∈ turns, ∀ c ∈ t.commands, c ≠ .quit ∧ c ≠ .load)
    {s : Session} {m : Machine} {before : Nat} (timed : s.Timed period recording before)
    (hm : s.machine.markShown = m.markShown)
    (hticks : ∀ ticks ∈ Turn.dueEach period before turns, ticks < UInt32.size)
    (hrecords : ∀ ticks ∈ Turn.dueEach recording before turns, ticks < UInt32.size) :
    (s.play turns).map (fun (outcomes, s') => (outcomes, s'.machine.markShown, s'.cycles)) =
      (s.slots.browse (turns.flatMap (·.commands))).bind fun _ =>
        (m.play period before turns).map fun (results, m') =>
          (results.map .ofResult, m'.markShown, s.cycles + results.countP (·.isOk)) := by
  induction turns generalizing s m before with
  | nil =>
    show some ([], s.machine.markShown, s.cycles) = some ([], m.markShown, s.cycles)
    rw [hm]
  | cons t later ih =>
    rw [List.forall_mem_cons] at calm
    rw [Turn.dueEach, List.forall_mem_cons] at hticks hrecords
    have htimers := Cadence.advance_mod t hperiod hticks.1
    have hrecorder := Cadence.advance_mod t hrecording hrecords.1
    rw [← timed.timers] at htimers
    rw [← timed.recorder] at hrecorder
    have hstep := course_step hm calm.1 htimers hrecorder
    rw [List.flatMap_cons, Slots.browse_append]
    cases hbrowse : s.slots.browse t.commands with
    | none =>
      -- a selection has overflowed, and what the machine would do no longer matters
      rw [hbrowse, Option.bind_none, Option.map_eq_none_iff] at hstep
      rw [play, hstep]
      rfl
    | some slots =>
      rw [hbrowse, Option.bind_some] at hstep
      cases hturn : m.turn t.keypad (t.due period before) with
      | none =>
        -- the machine is damaged where this cycle comes
        rw [hturn, Option.map_none, Option.map_eq_none_iff] at hstep
        rw [play, hstep, Machine.play, hturn]
        exact (Option.bind_fun_none _).symm
      | some ended =>
        obtain ⟨result, m₁⟩ := ended
        rw [hturn, Option.map_some, Option.map_eq_some_iff] at hstep
        obtain ⟨⟨outcome, s₁⟩, hstep, hs₁⟩ := hstep
        obtain ⟨rfl, hcourse⟩ := Prod.mk.inj hs₁
        have hslots : s₁.slots = slots := congrArg Course.slots hcourse
        have hcycles : s₁.cycles = s.cycles + if result.isOk then 1 else 0 :=
          congrArg Course.cycles hcourse
        have timed₁ : s₁.Timed period recording (before + t.elapsed) :=
          ⟨congrArg Course.timers hcourse, congrArg Course.recorder hcourse⟩
        have hrest := ih calm.2 timed₁ (congrArg Course.machine hcourse) hticks.2 hrecords.2
        rw [hslots, hcycles] at hrest
        have hmore := congrArg (Option.map (Prod.map (Outcome.ofResult result :: ·) id)) hrest
        rw [play_cons hstep, Machine.play_cons hturn, Option.map_map]
        rw [Option.map_map, Option.map_bind] at hmore
        refine hmore.trans (congrArg _ (funext fun _ => ?_))
        simp only [Function.comp, Option.map_map]
        congr 1
        funext ⟨results, m'⟩
        refine Prod.ext rfl (Prod.ext rfl ?_)
        show s.cycles + (if result.isOk then 1 else 0) + results.countP (·.isOk) =
          s.cycles + (result :: results).countP (·.isOk)
        rw [List.countP_cons]
        omega

section
variable {settings : Settings} {machine : Machine} {slots : Slots} {disk : Disk} {s : Session}
  (hstart : start settings machine slots disk = some (.ok s))
  {turns : List Turn} (htimers : Turn.Paced settings.timerUpdatesPerSecond turns)
  (hrecorder : Turn.Paced settings.rewindFrequency turns)
  (calm : ∀ t ∈ turns, ∀ c ∈ t.commands, c ≠ .quit ∧ c ≠ .load)
include hstart htimers hrecorder calm

theorem play_of_start :
    (s.play turns).map (fun (outcomes, s') => (outcomes, s'.machine.markShown, s'.cycles)) =
      (slots.browse (turns.flatMap (·.commands))).bind fun _ =>
        (machine.play (second / settings.timerUpdatesPerSecond.toNat) 0 turns).map
          fun (results, m) => (results.map .ofResult, m.markShown, results.countP (·.isOk)) := by
  obtain ⟨hzero, rfl, rfl, rfl, hcycles, hperiod, hrecording⟩ := start_eq_some_ok hstart
  have htimer := Nat.pos_of_ne_zero (Settings.valueOf_ne_zero hzero .timerUpdatesPerSecond)
  have hrecord := Nat.pos_of_ne_zero (Settings.valueOf_ne_zero hzero .rewindFrequency)
  have timed : s.Timed _ _ 0 := ⟨hperiod, hrecording⟩
  have hplay := play_eq (Nat.div_pos htimers.period htimer) (Nat.div_pos hrecorder.period hrecord)
    calm timed rfl htimers.fits hrecorder.fits
  simp only [hcycles, Nat.zero_add] at hplay
  exact hplay

/-! ## Main statement -/

/-- The machine of a session does what it would do alone, with the timer ticks of the time that
passes; a turn fails exactly with its cycle, and the session counts the cycles that went well.  Of
slots, files, history and devices nothing shows but one thing: a selection whose sum with the number
of slots does not fit 64 bits ends it all, which up to 2⁶³ slots never happens. -/
theorem play_refines :
    (s.play turns).map (fun (outcomes, s') => (outcomes, s'.machine.markShown, s'.cycles)) =
      ((slots.browse (turns.flatMap (·.commands))).bind fun _ =>
        (machine.play (second / settings.timerUpdatesPerSecond.toNat) 0 turns).map
          fun (results, m) => (results.map .ofResult, m.markShown, results.countP (·.isOk))) ∧
    (slots.selected < slots.count → 2 * slots.count.toNat ≤ UInt64.size →
      ∃ slots', slots.browse (turns.flatMap (·.commands)) = some slots') :=
  ⟨play_of_start hstart htimers hrecorder calm,
    fun hselected hcount => Slots.exists_browse hselected hcount _⟩

end

/-- A save, a look at the slots and back, a key, and three seconds at once. -/
theorem play_refines_three :
    let machine := Machine.ofSeed ⟨false, false⟩ 3
    let slots : Slots := ⟨⟨"saves"⟩, "pong", 6, 0⟩
    let turns : List Turn := [⟨.released, [.save, .nextSlot], 0⟩, ⟨.ofKeys [5], [], 20000000⟩,
      ⟨.released, [.previousSlot, .save], 3 * second⟩]
    Turn.Paced 60 turns ∧ (∀ t ∈ turns, ∀ c ∈ t.commands, c ≠ .quit ∧ c ≠ .load) ∧
      ∃ s, start .default machine slots .blank = some (.ok s) ∧
        (s.play turns).map (fun (outcomes, s') => (outcomes, s'.machine.markShown, s'.cycles)) =
          (machine.play (second / Settings.default.timerUpdatesPerSecond.toNat) 0 turns).map
            fun (results, m) =>
              (results.map .ofResult, m.markShown, results.countP (·.isOk)) := by
  intro machine slots turns
  have calm : ∀ t ∈ turns, ∀ c ∈ t.commands, c ≠ .quit ∧ c ≠ .load := by decide
  have paced : Turn.Paced 60 turns := ⟨by decide, by decide⟩
  obtain ⟨s, hstart⟩ := exists_start Settings.firstZero?_default (by decide) machine slots .blank
  have hbrowse : slots.browse (turns.flatMap (·.commands)) = some slots := by
    decide +kernel +zetaReduce
  have hplay := (play_refines hstart paced paced calm).1
  rw [hbrowse, Option.bind_some] at hplay
  exact ⟨paced, calm, s, hstart, hplay⟩

/-- As many slots as there can be: the second step back from the first of them ends it all. -/
theorem play_eq_none_of_many_slots :
    let settings : Settings := { Settings.default with slotCount := 0xFFFFFFFFFFFFFFFF }
    let machine := Machine.ofSeed ⟨false, false⟩ 3
    let slots : Slots := ⟨⟨"saves"⟩, "pong", settings.slotCount, 0⟩
    let turns : List Turn := [⟨.released, [.previousSlot], 0⟩, ⟨.released, [.previousSlot], 0⟩]
    ∃ s ended, start settings machine slots .blank = some (.ok s) ∧ s.play turns = none ∧
      machine.play (second / settings.timerUpdatesPerSecond.toNat) 0 turns = some ended := by
  intro settings machine slots turns
  have calm : ∀ t ∈ turns, ∀ c ∈ t.commands, c ≠ .quit ∧ c ≠ .load := by decide
  have paced : Turn.Paced 60 turns := ⟨by decide, by decide⟩
  have hbrowse : slots.browse (turns.flatMap (·.commands)) = none := by
    decide +kernel +zetaReduce
  have hzero : settings.firstZero? = none := by decide +kernel +zetaReduce
  obtain ⟨s, hstart⟩ := exists_start hzero (by decide) machine slots .blank
  obtain ⟨ended, hended⟩ := (Machine.wellFormed_fresh ⟨false, false⟩ (.ofSeed 3)).exists_play
    (second / settings.timerUpdatesPerSecond.toNat) 0 turns
  have hplay := play_of_start hstart paced paced calm
  rw [hbrowse, Option.bind_none, Option.map_eq_none_iff] at hplay
  exact ⟨s, ended, hstart, hplay, hended⟩

end Session

end Chip8
