import Chip8.Proofs.Machine.Calls
import Chip8.Proofs.Machine.Sides
import Chip8.Proofs.Machine.Words

/-!
# Ticks and keys between instructions

Timers tick and keys change between one instruction and the next, and where exactly is of no
account unless the instruction asks for timers or for keys.  A cycle that does not ask commutes with
the change, also if it faults or finds no instruction at all:

    (m.around f g).cycle = m.cycle.map (the same, around f and g)                      (cycle_around)

By induction a change moves over every stretch of such cycles, and over the ticks and keys among
them:

    m.Avoids Instruction.usesTimers stretch → (m.tickTimers ticks).attempt stretch =
      (m.attempt stretch).map (the same, ticks later)                            (attempt_tickTimers)
-/

namespace Chip8

namespace Timers

/-- Ticks one after the other, by the number that is left on a timer. -/
theorem tickBy_tickBy (t : Timers) (ticks more : Nat) :
    (t.tickBy ticks).tickBy more = t.tickBy (ticks + more) := by
  induction ticks generalizing t with
  | zero => rw [tickBy_zero, Nat.zero_add]
  | succ ticks ih => rw [tickBy_succ, ih, Nat.succ_add, tickBy_succ]

theorem tickBy_comm (t : Timers) (ticks more : Nat) :
    (t.tickBy ticks).tickBy more = (t.tickBy more).tickBy ticks := by
  rw [tickBy_tickBy, tickBy_tickBy, Nat.add_comm]

end Timers

namespace Machine

/-! ## One cycle -/

/-- The machine with its timers and its keypad changed. -/
def around (m : Machine) (f : Timers → Timers) (g : Keypad → Keypad) : Machine :=
  { m with timers := f m.timers, keypad := g m.keypad }

section
variable {m : Machine} {f : Timers → Timers} {g : Keypad → Keypad}

theorem timersAfter_of_usesTimers {i : Instruction} (h : i.usesTimers = false) (t : Timers) :
    m.timersAfter t i = t := by
  cases i
  case setDelay | setSound => cases h
  all_goals rfl

theorem execute_around {i : Instruction} (timers : i.usesTimers = true → f = id)
    (keys : i.usesKeys = true → g = id) :
    (m.around f g).execute i = (m.execute i).map (Prod.map id (·.around f g)) := by
  let s : Sides := { m.sides with timers := f m.timers, keypad := g m.keypad }
  have aside : m.around f g = m.beside s := rfl
  rw [aside]
  refine execute_beside_eq (·.around f g) (.refl m.index) ?_ ?_ ?_
  · intro uses
    show f m.timers = m.timers
    rw [timers uses]
    rfl
  · intro uses
    show g m.keypad = m.keypad
    rw [keys uses]
    rfl
  · intro m'
    have moved : m.timersAfter (f m.timers) i = f (m.timersAfter m.timers i) := by
      cases uses : i.usesTimers with
      | true =>
        rw [timers uses]
        rfl
      | false => rw [timersAfter_of_usesTimers uses, timersAfter_of_usesTimers uses]
    show m'.beside { m.sidesAfter s i with timers := m.timersAfter (f m.timers) i } = _
    rw [moved]
    rfl

theorem cycle_around (timers : ∀ i, m.Fetches i → i.usesTimers = true → f = id)
    (keys : ∀ i, m.Fetches i → i.usesKeys = true → g = id) :
    (m.around f g).cycle = m.cycle.map (Prod.map id (·.around f g)) := by
  have same : (m.around f g).memory.word? (m.around f g).counter = m.memory.word? m.counter := rfl
  simp only [cycle, same]
  cases hword : m.memory.word? m.counter with
  | none => rfl
  | some opcode =>
    simp only [Option.bind_eq_bind, Option.bind_some]
    cases hi : Instruction.decode opcode with
    | none => rfl
    | some i =>
      have fetched : m.Fetches i := fetches_iff.2 (next?_eq_some_iff.2 ⟨opcode, hword, hi⟩)
      exact execute_around (m := { m with opcode }) (timers i fetched) (keys i fetched)

theorem cycle_tickTimers (free : ∀ i, m.Fetches i → i.usesTimers = false) (ticks : Nat) :
    (m.tickTimers ticks).cycle = m.cycle.map (Prod.map id (·.tickTimers ticks)) := by
  refine cycle_around (f := (·.tickBy ticks)) (g := id) ?_ (fun _ _ _ => rfl)
  intro i fetched uses
  rw [free i fetched] at uses
  cases uses

theorem cycle_setKeypad (free : ∀ i, m.Fetches i → i.usesKeys = false) (keypad : Keypad) :
    (m.setKeypad keypad).cycle = m.cycle.map (Prod.map id (·.setKeypad keypad)) := by
  refine cycle_around (f := id) (g := fun _ => keypad) (fun _ _ _ => rfl) ?_
  intro i fetched uses
  rw [free i fetched] at uses
  cases uses

end

/-! ## Many cycles -/

/-- No cycle among the attempts comes to an instruction of a kind. -/
def Avoids (kind : Instruction → Bool) : Machine → List Attempt → Prop
  | _, [] => True
  | m, .cycle :: later =>
    (∀ i, m.Fetches i → kind i = false) ∧
      ∀ outcome m', m.cycle = some (outcome, m') → m'.Avoids kind later
  | m, .tickTimers ticks :: later => (m.tickTimers ticks).Avoids kind later
  | m, .setKeypad keypad :: later => (m.setKeypad keypad).Avoids kind later

/-- Attempts in two parts. -/
theorem attempt_append (m : Machine) (before later : List Attempt) :
    m.attempt (before ++ later) = (m.attempt before).bind fun (outcomes, m') =>
      (m'.attempt later).map (Prod.map (outcomes ++ ·) id) := by
  induction before generalizing m with
  | nil =>
    show m.attempt later = (m.attempt later).map id
    rw [Option.map_id, id]
  | cons a before ih =>
    cases a with
    | cycle =>
      rw [List.cons_append, attempt, attempt]
      rcases m.cycle with _ | ⟨outcome, m₁⟩
      · rfl
      · simp only [Option.bind_eq_bind, Option.bind_some, ih m₁]
        rcases m₁.attempt before with _ | ⟨outcomes, m₂⟩
        · rfl
        · show ((m₂.attempt later).map _).bind _ = (m₂.attempt later).map _
          rcases m₂.attempt later with _ | ⟨after, m₃⟩ <;> rfl
    | tickTimers ticks => exact ih (m.tickTimers ticks)
    | setKeypad keypad => exact ih (m.setKeypad keypad)

/-- By induction on the attempts, for a change that each of them lets pass. -/
theorem attempt_passes {m : Machine} {stretch : List Attempt} {kind : Instruction → Bool}
    (change : Machine → Machine)
    (cycles : ∀ m : Machine, (∀ i, m.Fetches i → kind i = false) →
      (change m).cycle = m.cycle.map (Prod.map id change))
    (ticks : ∀ m : Machine, ∀ ticks, .tickTimers ticks ∈ stretch →
      (change m).tickTimers ticks = change (m.tickTimers ticks))
    (keys : ∀ m : Machine, ∀ keypad, .setKeypad keypad ∈ stretch →
      (change m).setKeypad keypad = change (m.setKeypad keypad))
    (avoids : m.Avoids kind stretch) :
    (change m).attempt stretch = (m.attempt stretch).map (Prod.map id change) := by
  induction stretch generalizing m with
  | nil => rfl
  | cons a later ih =>
    have ih {m : Machine} (avoids : m.Avoids kind later) :=
      ih (m := m) (fun m n h => ticks m n (.tail a h)) (fun m k h => keys m k (.tail a h)) avoids
    cases a with
    | cycle =>
      obtain ⟨free, avoids⟩ := avoids
      rw [attempt, attempt, cycles m free]
      rcases hcycle : m.cycle with _ | ⟨outcome, m₁⟩
      · rfl
      · show ((change m₁).attempt later).bind _ = ((m₁.attempt later).bind _).map _
        rw [ih (avoids outcome m₁ hcycle)]
        rcases m₁.attempt later with _ | ⟨outcomes, m₂⟩ <;> rfl
    | tickTimers n =>
      rw [attempt, attempt, ticks m n (.head later)]
      exact ih avoids
    | setKeypad keypad =>
      rw [attempt, attempt, keys m keypad (.head later)]
      exact ih avoids

section
variable {m : Machine} {stretch : List Attempt}

/-- Ticks pass cycles that do not ask for timers, and ticks and keys among them. -/
theorem attempt_tickTimers (avoids : m.Avoids Instruction.usesTimers stretch) (ticks : Nat) :
    (m.tickTimers ticks).attempt stretch =
      (m.attempt stretch).map (Prod.map id (·.tickTimers ticks)) := by
  refine attempt_passes (·.tickTimers ticks) ?_ ?_ ?_ avoids
  · intro m free
    exact cycle_tickTimers free ticks
  · intro m more _
    show { m with timers := (m.timers.tickBy ticks).tickBy more } = _
    rw [Timers.tickBy_comm]
    rfl
  · intro m keypad _
    rfl

/-- A change of keys passes cycles that do not ask for keys, and ticks, but no other change. -/
theorem attempt_setKeypad (avoids : m.Avoids Instruction.usesKeys stretch)
    (keyless : ∀ keypad, .setKeypad keypad ∉ stretch) (keypad : Keypad) :
    (m.setKeypad keypad).attempt stretch =
      (m.attempt stretch).map (Prod.map id (·.setKeypad keypad)) := by
  refine attempt_passes (·.setKeypad keypad) ?_ ?_ ?_ avoids
  · intro m free
    exact cycle_setKeypad free keypad
  · intro m ticks _
    rfl
  · intro m other among
    exact absurd among (keyless other)

/-- An attempt whose change passes a stretch may come before it or behind it. -/
theorem Sturdy.exists_attempt_moved (sturdy : m.Sturdy) {m' : Machine} {before : List Attempt}
    {outcomes : List (Except Fault Progress)} (hbefore : m.attempt before = some (outcomes, m'))
    {a : Attempt} {change : Machine → Machine}
    (changes : ∀ (m : Machine) later, m.attempt (a :: later) = (change m).attempt later)
    (passes : (change m').attempt stretch = (m'.attempt stretch).map (Prod.map id change))
    (after : List Attempt) :
    ∃ ended, m.attempt (before ++ [a] ++ stretch ++ after) = some ended ∧
      m.attempt (before ++ stretch ++ [a] ++ after) = some ended := by
  have both : m'.attempt (a :: (stretch ++ after)) = m'.attempt (stretch ++ a :: after) := by
    rw [changes, attempt_append, attempt_append, passes, Option.bind_map]
    congr 1
    funext ended
    obtain ⟨outcomes, m₁⟩ := ended
    show ((change m₁).attempt after).map _ = (m₁.attempt (a :: after)).map _
    rw [changes]
    rfl
  obtain ⟨outcomes', m₁, hmoved, -⟩ :=
    sturdy.exists_attempt (before ++ stretch ++ [a] ++ after)
  refine ⟨(outcomes', m₁), ?_, hmoved⟩
  rw [← hmoved]
  simp only [List.append_assoc, List.singleton_append]
  rw [attempt_append, attempt_append m before, hbefore]
  show (m'.attempt (a :: (stretch ++ after))).map _ = (m'.attempt (stretch ++ a :: after)).map _
  rw [both]

end

/-! ## Main statement -/

/-- On a machine with all its memory and pixels and a stack within its cells.  A cycle that does not
come to FX07, FX15 or FX18 gives the same result and the same machine before any number of ticks as
after it, and one that does not come to EX9E, EXA1 or FX0A before any change of keys as after it.
So in every run ticks move over every stretch of such cycles, with whatever else is attempted in
it, and a change of keys moves over every stretch of such cycles and ticks. -/
theorem inputs_commute (m : Machine) (full : m.memory.bytes.size = Memory.size)
    (hdepth : m.depth.toNat ≤ 16) (whole : m.screen.Whole) :
    (∃ outcome m', m.cycle = some (outcome, m') ∧
      ((∀ i, m.Fetches i → i.usesTimers = false) → ∀ ticks,
        (m.tickTimers ticks).cycle = some (outcome, m'.tickTimers ticks)) ∧
      ((∀ i, m.Fetches i → i.usesKeys = false) → ∀ keypad,
        (m.setKeypad keypad).cycle = some (outcome, m'.setKeypad keypad))) ∧
    ∀ before stretch after, ∃ outcomes m', m.attempt before = some (outcomes, m') ∧
      (m'.Avoids Instruction.usesTimers stretch → ∀ ticks, ∃ ended,
        m.attempt (before ++ [.tickTimers ticks] ++ stretch ++ after) = some ended ∧
        m.attempt (before ++ stretch ++ [.tickTimers ticks] ++ after) = some ended) ∧
      (m'.Avoids Instruction.usesKeys stretch → (∀ keypad, .setKeypad keypad ∉ stretch) →
        ∀ keypad, ∃ ended,
          m.attempt (before ++ [.setKeypad keypad] ++ stretch ++ after) = some ended ∧
          m.attempt (before ++ stretch ++ [.setKeypad keypad] ++ after) = some ended) := by
  have sturdy : m.Sturdy := ⟨Nat.le_of_eq full.symm, hdepth, whole.drawable⟩
  constructor
  · obtain ⟨outcome, m', hcycle, -⟩ := sturdy.exists_cycle
    refine ⟨outcome, m', hcycle, ?_, ?_⟩
    · intro free ticks
      rw [cycle_tickTimers free, hcycle]
      rfl
    · intro free keypad
      rw [cycle_setKeypad free, hcycle]
      rfl
  · intro before stretch after
    obtain ⟨outcomes, m', hbefore, -⟩ := sturdy.exists_attempt before
    refine ⟨outcomes, m', hbefore, ?_, ?_⟩
    · intro avoids ticks
      exact sturdy.exists_attempt_moved hbefore (fun _ _ => rfl) (attempt_tickTimers avoids ticks)
        after
    · intro avoids keyless keypad
      exact sturdy.exists_attempt_moved hbefore (fun _ _ => rfl)
        (attempt_setKeypad avoids keyless keypad) after

/-- A register is set, two ticks go by, and a cycle faults, since 0xFFFF is no instruction: sixty
ticks, or all keys pressed, do not care whether that is before them or behind them. -/
theorem inputs_commute_once :
    let program : List UInt8 := [0x60, 0x05, 0xFF, 0xFF]
    let stretch : List Attempt := [.cycle, .tickTimers 2, .cycle]
    let held : Keypad := Vector.replicate 16 true
    ∃ memory, Memory.blank.load program = some (.ok memory) ∧
      memory.bytes.size = Memory.size ∧
      let m : Machine := { fresh ⟨false, false⟩ (.ofSeed 3) with memory, timers := ⟨90, 30⟩ }
      m.depth.toNat ≤ 16 ∧ m.screen.Whole ∧
      (∀ i, m.Fetches i → i.usesTimers = false) ∧ (∀ i, m.Fetches i → i.usesKeys = false) ∧
      m.Avoids Instruction.usesTimers stretch ∧ m.Avoids Instruction.usesKeys stretch ∧
      (∀ keypad, .setKeypad keypad ∉ stretch) ∧
      (∃ outcome m', m.cycle = some (outcome, m') ∧
        (m.tickTimers 60).cycle = some (outcome, m'.tickTimers 60) ∧
        (m.setKeypad held).cycle = some (outcome, m'.setKeypad held)) ∧
      (∃ ended, m.attempt ([.tickTimers 60] ++ stretch ++ [.cycle]) = some ended ∧
        m.attempt (stretch ++ [.tickTimers 60] ++ [.cycle]) = some ended) ∧
      ∃ ended, m.attempt ([.setKeypad held] ++ stretch ++ [.cycle]) = some ended ∧
        m.attempt (stretch ++ [.setKeypad held] ++ [.cycle]) = some ended := by
  intro program stretch held
  obtain ⟨memory, hload, full⟩ := Memory.exists_load_blank (by decide : program.length ≤ _)
  refine ⟨memory, hload, full, ?_⟩
  intro m
  have fit := wellFormed_fresh ⟨false, false⟩ (.ofSeed 3)
  have hdepth : m.depth.toNat ≤ 16 := fit.depth
  have whole : m.screen.Whole := fit.whole
  have sets : m.Fetches (.set (lastDigit 0) 5) :=
    ⟨trivial, 0x6005, Memory.word?_load hload, by decide⟩
  have only : ∀ i, m.Fetches i → i = .set (lastDigit 0) 5 := fun i fetched =>
    Option.some.inj ((fetches_iff.1 fetched).symm.trans (fetches_iff.1 sets))
  have hword : memory.word? 0x202 = some 0xFFFF :=
    Memory.word?_load_at hload (rfl : program[2]? = some 0xFF) rfl
  have avoids (kind : Instruction → Bool) (h : kind (.set (lastDigit 0) 5) = false) :
      m.Avoids kind stretch := by
    refine ⟨fun i fetched => only i fetched ▸ h, fun outcome m₁ hcycle => ?_⟩
    obtain ⟨opcode, hexecute⟩ := cycle_of_next? (fetches_iff.1 sets)
    cases hexecute.symm.trans hcycle
    refine ⟨fun i fetched => ?_, fun _ _ _ => trivial⟩
    obtain ⟨word, hnext, hdecode⟩ := next?_eq_some_iff.1 (fetches_iff.1 fetched)
    obtain rfl : 0xFFFF = word := Option.some.inj (hword.symm.trans hnext)
    cases hdecode
  have timers := avoids Instruction.usesTimers rfl
  have keys := avoids Instruction.usesKeys rfl
  have keyless : ∀ keypad, .setKeypad keypad ∉ stretch := by simp [stretch]
  obtain ⟨⟨outcome, m', hcycle, ticked, keyed⟩, runs⟩ := inputs_commute m full hdepth whole
  obtain ⟨_, _, hbefore, movedTicks, movedKeys⟩ := runs [] stretch [.cycle]
  cases hbefore
  exact ⟨hdepth, whole, timers.1, keys.1, timers, keys, keyless,
    ⟨outcome, m', hcycle, ticked timers.1 60, keyed keys.1 held⟩, movedTicks timers 60,
    movedKeys keys keyless held⟩

end Machine

end Chip8
