import Chip8.Proofs.Machine.Frame
import Chip8.Proofs.Machine.Words

/-!
# Waiting for a key

FX0A comes up again as long as no key is held, and changes nothing meanwhile but the record of the
word.  No other instruction waits:

    (∃ m', m.cycle = some (.ok .awaitingKey, m')) ↔
      (∃ x, m.Fetches (.awaitKey x)) ∧ ∀ key, m.keypad.get key = false            (awaits_key)

So the wait goes on however often it is tried, whatever ticks and keys come between the cycles, and
ends at the first cycle that finds a key held:

    m.Reads word (.awaitKey x) → m.keypad.Idle attempts → m.attempt attempts =
      some (List.replicate (attempts.count .cycle) (.ok .awaitingKey), m.waited word attempts)
                                                                            (Reads.attempt_idle)
-/

namespace Chip8

namespace Keypad

theorem lowest?_eq_some_iff {keypad : Keypad} {key : Fin 16} :
    keypad.lowest? = some key ↔
      keypad.get key = true ∧ ∀ lower, lower < key → keypad.get lower = false := by
  have find (p : Fin 16 → Bool) : (List.finRange 16).find? p = some key ↔
      p key = true ∧ ∀ lower, lower < key → p lower = false := by
    rw [List.find?_eq_some_iff_getElem]
    constructor
    · rintro ⟨holds, i, hi, hkey, before⟩
      obtain rfl : i = key.val := by simpa [Fin.ext_iff] using hkey
      refine ⟨holds, fun lower hlower => ?_⟩
      simpa using before lower.val hlower
    · rintro ⟨holds, before⟩
      refine ⟨holds, key.val, by simp, by simp, fun i hi => ?_⟩
      simpa using before ⟨i, by omega⟩ hi
  rw [lowest?, heldKeys, List.head?_filter, find]

/-- No key is held at any of the cycles. -/
def Idle : Keypad → List Attempt → Prop
  | _, [] => True
  | keypad, .cycle :: later => (∀ key : Fin 16, keypad.get key = false) ∧ keypad.Idle later
  | keypad, .tickTimers _ :: later => keypad.Idle later
  | _, .setKeypad keypad :: later => Idle keypad later

end Keypad

namespace Machine

variable {m m' : Machine} {word : UInt16} {x : Register}

/-! ## One cycle -/

/-- Only FX0A waits, and it waits for a key. -/
theorem execute_awaits_iff {i : Instruction} :
    m.execute i = some (.ok .awaitingKey, m') ↔
      (∃ x, i = .awaitKey x) ∧ m.keypad.lowest? = none ∧ m' = m := by
  cases i
  case ret =>
    simp only [execute]
    split <;> simp [Option.bind_eq_some_iff, execute.done]
  case call target =>
    simp only [execute]
    split <;> simp [execute.done]
  case awaitKey x =>
    simp only [execute]
    split
    · next key held => simp [execute.done, held]
    · next none => simp [none, eq_comm]
  case draw | storeDigits | storeRegisters | loadRegisters =>
    simp [execute, execute.done, Option.bind_eq_some_iff]
  all_goals simp [execute, execute.done]

/-- The word at the counter, and the instruction that it stands for. -/
def Reads (m : Machine) (word : UInt16) (i : Instruction) : Prop :=
  m.memory.word? m.counter = some word ∧ Instruction.decode word = some i

theorem fetches_iff_reads {i : Instruction} : m.Fetches i ↔ ∃ word, m.Reads word i :=
  fetches_iff.trans next?_eq_some_iff

theorem cycle_awaits_iff : m.cycle = some (.ok .awaitingKey, m') ↔
    ∃ x word, m.Reads word (.awaitKey x) ∧ m.keypad.lowest? = none ∧
      m' = { m with opcode := word } := by
  rw [cycle_eq_some_iff]
  constructor
  · rintro ⟨word, hword, h⟩
    split at h
    · cases h.1
    · next i hi =>
      obtain ⟨⟨x, rfl⟩, released, rfl⟩ := execute_awaits_iff.1 h
      exact ⟨x, word, ⟨hword, hi⟩, released, rfl⟩
  · rintro ⟨x, word, ⟨hword, hi⟩, released, rfl⟩
    refine ⟨word, hword, ?_⟩
    rw [hi]
    exact execute_awaits_iff.2 ⟨⟨x, rfl⟩, released, rfl⟩

namespace Reads

variable (h : m.Reads word (.awaitKey x))
include h

theorem cycle_released (released : ∀ key : Fin 16, m.keypad.get key = false) :
    m.cycle = some (.ok .awaitingKey, { m with opcode := word }) :=
  cycle_awaits_iff.2 ⟨x, word, h, Keypad.lowest?_eq_none_iff.2 released, rfl⟩

/-- The lowest of the keys goes to VX. -/
theorem cycle_held {key : Fin 16} (held : m.keypad.lowest? = some key) :
    m.cycle = some (.ok .executed,
      { m with
        registers := m.registers.put x (UInt8.ofNat key)
        counter := (m.counter + 2) % 0x1000
        opcode := word }) := by
  obtain ⟨hword, hi⟩ := h
  refine cycle_eq_some_iff.2 ⟨word, hword, ?_⟩
  rw [hi]
  simp only [execute, held]
  rfl

end Reads

/-! ## Many cycles -/

/-- The machine after attempts of which every cycle waited. -/
def waited (m : Machine) (word : UInt16) (attempts : List Attempt) : Machine :=
  { m.attended attempts with opcode := if .cycle ∈ attempts then word else m.opcode }

/-- The record of the word has no part in ticks and keys. -/
theorem attended_opcode (m : Machine) (opcode : UInt16) (attempts : List Attempt) :
    { m with opcode }.attended attempts = { m.attended attempts with opcode } := by
  induction attempts generalizing m with
  | nil => rfl
  | cons a later ih =>
    cases a with
    | cycle => exact ih m
    | tickTimers ticks => exact ih (m.tickTimers ticks)
    | setKeypad keypad => exact ih (m.setKeypad keypad)

theorem waited_cycle (m : Machine) (word : UInt16) (later : List Attempt) :
    { m with opcode := word }.waited word later = m.waited word (.cycle :: later) := by
  unfold waited
  rw [attended_opcode, if_pos List.mem_cons_self, ite_self]
  rfl

/-- Only timers, keypad and record are other ones after a wait. -/
theorem reads_waited (h : m.Reads word (.awaitKey x)) (attempts : List Attempt) :
    (m.waited word attempts).Reads word (.awaitKey x) := by
  have same : (m.attended attempts).memory = m.memory ∧
      (m.attended attempts).counter = m.counter := by
    clear h
    induction attempts generalizing m with
    | nil => exact ⟨rfl, rfl⟩
    | cons a later ih =>
      cases a with
      | cycle => exact ih
      | tickTimers ticks => exact ih (m := m.tickTimers ticks)
      | setKeypad keypad => exact ih (m := m.setKeypad keypad)
  refine ⟨?_, h.2⟩
  show (m.attended attempts).memory.word? (m.attended attempts).counter = some word
  rw [same.1, same.2]
  exact h.1

/-- By induction on the attempts: each cycle waits, and finds the same word again. -/
theorem Reads.attempt_idle (h : m.Reads word (.awaitKey x)) {attempts : List Attempt}
    (idle : m.keypad.Idle attempts) :
    m.attempt attempts = some
      (List.replicate (attempts.count .cycle) (.ok .awaitingKey), m.waited word attempts) := by
  induction attempts generalizing m with
  | nil => rfl
  | cons a later ih =>
    cases a with
    | cycle =>
      obtain ⟨released, idle⟩ := idle
      have rest := ih (m := { m with opcode := word }) h idle
      rw [attempt, h.cycle_released released]
      simp only [Option.bind_eq_bind, Option.bind_some, rest, waited_cycle]
      rw [List.count_cons_self, List.replicate_succ]
      rfl
    | tickTimers ticks =>
      rw [attempt, ih (m := m.tickTimers ticks) h idle]
      simp [waited, attended, tickTimers]
    | setKeypad keypad =>
      rw [attempt, ih (m := m.setKeypad keypad) h idle]
      simp [waited, attended, setKeypad]

/-! ## Main statement -/

/-- A cycle of any machine waits just if the word at the counter is FX0A and no key is held.  Then
it changes the record of the word and nothing else, and so does every other one that finds no key
held, whatever ticks and changes of keys come between them.  The first one that does find keys
executes the instruction: the lowest of them goes to VX, and the counter to the next instruction. -/
theorem awaits_key (m : Machine) :
    ((∃ m', m.cycle = some (.ok .awaitingKey, m')) ↔
      (∃ x, m.Fetches (.awaitKey x)) ∧ ∀ key : Fin 16, m.keypad.get key = false) ∧
    ∀ x, m.Fetches (.awaitKey x) →
      ∃ word : UInt16, word.toNat = 0xF00A + 0x100 * x.val ∧
        m.memory.word? m.counter = some word ∧
        ∀ attempts, m.keypad.Idle attempts →
          ∃ m', m.attempt attempts =
              some (List.replicate (attempts.count .cycle) (.ok .awaitingKey), m') ∧
            m' = { m.attended attempts with
              opcode := if .cycle ∈ attempts then word else m.opcode } ∧
            ((∃ key : Fin 16, m'.keypad.get key = true) →
              ∃ key : Fin 16, m'.keypad.get key = true ∧
                (∀ lower, lower < key → m'.keypad.get lower = false) ∧
                m'.cycle = some (.ok .executed,
                  { m' with
                    registers := m'.registers.put x (UInt8.ofNat key)
                    counter := (m'.counter + 2) % 0x1000
                    opcode := word })) := by
  constructor
  · simp only [cycle_awaits_iff, fetches_iff_reads, Keypad.lowest?_eq_none_iff]
    constructor
    · rintro ⟨m', x, word, reads, released, -⟩
      exact ⟨⟨x, word, reads⟩, released⟩
    · rintro ⟨⟨x, word, reads⟩, released⟩
      exact ⟨_, x, word, reads, released, rfl⟩
  · intro x fetched
    obtain ⟨word, reads⟩ := fetches_iff_reads.1 fetched
    refine ⟨word, (Instruction.code_of_decode reads.2).symm, reads.1, fun attempts idle => ?_⟩
    refine ⟨m.waited word attempts, reads.attempt_idle idle, rfl, fun pressed => ?_⟩
    cases hlowest : (m.waited word attempts).keypad.lowest? with
    | none =>
      obtain ⟨key, held⟩ := pressed
      rw [Keypad.lowest?_eq_none_iff.1 hlowest key] at held
      cases held
    | some key =>
      obtain ⟨held, lowest⟩ := Keypad.lowest?_eq_some_iff.1 hlowest
      exact ⟨key, held, lowest, (reads_waited reads attempts).cycle_held hlowest⟩

/-- F30A at the start of the program: two cycles with a tick between them find no key, and the next
one finds keys 5 and 9. -/
theorem awaits_key_pressed :
    let program : List UInt8 := [0xF3, 0x0A]
    let attempts : List Attempt :=
      [.cycle, .tickTimers 1, .cycle, .setKeypad (.ofKeys [9, 5])]
    ∃ memory, Memory.blank.load program = some (.ok memory) ∧
      let m : Machine := { fresh ⟨false, false⟩ (.ofSeed 3) with memory, timers := ⟨7, 0⟩ }
      m.Fetches (.awaitKey (lastDigit 3)) ∧ m.keypad.Idle attempts ∧
      ∃ m' m'', m.attempt attempts = some ([.ok .awaitingKey, .ok .awaitingKey], m') ∧
        m'.cycle = some (.ok .executed, m'') ∧ m''.registers.get (lastDigit 3) = 5 ∧
        m''.counter = 0x202 ∧ m''.timers = ⟨6, 0⟩ := by
  intro program attempts
  obtain ⟨memory, hload, full⟩ := Memory.exists_load_blank (by decide : program.length ≤ _)
  refine ⟨memory, hload, ?_⟩
  intro m
  have reads : m.Reads 0xF30A (.awaitKey (lastDigit 3)) := ⟨Memory.word?_load hload, by decide⟩
  have fetched := fetches_iff_reads.2 ⟨_, reads⟩
  have idle : m.keypad.Idle attempts := by
    have released : ∀ key : Fin 16, Keypad.released.get key = false := by decide
    exact ⟨released, released, trivial⟩
  obtain ⟨word, -, -, waits⟩ := (awaits_key m).2 _ fetched
  obtain ⟨m', hattempt, hm', ends⟩ := waits attempts idle
  have keypad : m'.keypad = .ofKeys [9, 5] := by rw [hm']; rfl
  obtain ⟨key, held, lowest, hcycle⟩ := ends ⟨5, by rw [keypad]; decide⟩
  rw [keypad] at held lowest
  have five : (Keypad.ofKeys [9, 5]).lowest? = some 5 := by decide
  obtain rfl : key = 5 := by
    rw [Keypad.lowest?_eq_some_iff.2 ⟨held, lowest⟩] at five
    exact Option.some.inj five
  refine ⟨fetched, idle, m', _, hattempt, hcycle, ?_, ?_, ?_⟩
  · rw [Cells.get_put, if_pos rfl]
    rfl
  · rw [hm']
    rfl
  · rw [hm']
    rfl

end Machine

end Chip8
