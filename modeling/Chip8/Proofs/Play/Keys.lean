import Chip8.Proofs.Machine.Memory
import Chip8.Proofs.Play.Turn
import Chip8.Proofs.Storage.Saves

/-!
# The keys of a cycle

A turn takes the polled keys first and obeys commands then, and a load puts another machine in place
of the one that has them.  So the keys of the cycle are those that the machine loaded last was saved
with, and the polled ones only if nothing was loaded:

    s.atCycle? poll elapsed broken = some s₁ →
      s₁.machine.keypad = heldAfter poll.keypad (s.loads …)                    (keypad_atCycle)
-/

namespace Chip8

/-- The keys held once these machines have been loaded one after the other. -/
def heldAfter (polled : Keypad) (loaded : List Machine) : Keypad :=
  (loaded.getLast?.map (·.keypad)).getD polled

theorem heldAfter_append (polled : Keypad) (loaded later : List Machine) :
    heldAfter polled (loaded ++ later) = heldAfter (heldAfter polled loaded) later := by
  unfold heldAfter
  rw [List.getLast?_append]
  cases later.getLast? <;> rfl

theorem heldAfter_eq_iff {polled : Keypad} {loaded : List Machine} :
    heldAfter polled loaded = polled ↔ ∀ m, loaded.getLast? = some m → m.keypad = polled := by
  unfold heldAfter
  cases loaded.getLast? <;> simp

/-- Whether FX0A gets its key depends on the keypad alone. -/
theorem Machine.progress_awaitKey {m : Machine} {word : UInt16} {x : Register}
    (hword : m.memory.word? m.counter = some word)
    (hdecode : Instruction.decode word = some (.awaitKey x)) :
    m.cycle.map Prod.fst =
      some (.ok (if m.keypad.lowest?.isSome then .executed else .awaitingKey)) := by
  simp only [cycle, hword, hdecode, execute, Option.bind_eq_bind, Option.bind_some]
  cases m.keypad.lowest? <;> rfl

namespace Session

/-- The machine that a command loads. -/
def loadBy (s : Session) : Command → List Machine
  | .load => (s.slots.load s.disk s.slots.selected).toOption.toList
  | _ => []

/-- The machines that are loaded while commands are obeyed, in order. -/
def loads (s : Session) (broken : Option DeviceCall) : List Command → List Machine
  | [] => []
  | .quit :: _ => []
  | c :: later =>
    s.loadBy c ++
      match (s.command c).bind fun s => (s.redraw broken).toOption with
      | some s => s.loads broken later
      | none => []

theorem loads_cons {s s₁ s₂ : Session} {broken : Option DeviceCall} {c : Command}
    (hc : c ≠ .quit) (hcommand : s.command c = some s₁) (hredraw : s₁.redraw broken = .ok s₂)
    (later : List Command) :
    s.loads broken (c :: later) = s.loadBy c ++ s₂.loads broken later := by
  cases c with
  | quit => exact absurd rfl hc
  | save | load | nextSlot | previousSlot => simp [loads, hcommand, hredraw, Except.toOption]

/-- Only a load brings other keys. -/
theorem keypad_command {s s' : Session} {c : Command} (h : s.command c = some s') :
    s'.machine.keypad = heldAfter s.machine.keypad (s.loadBy c) := by
  cases c with
  | quit => cases h; rfl
  | save =>
    cases h
    unfold saveSlot
    split <;> rfl
  | load =>
    cases h
    unfold loadSlot loadBy
    split
    · next m hload => simp [hload, Except.toOption, heldAfter, resume, Machine.markStale]
    · next failure hload =>
      simp only [hload, Except.toOption]
      split <;> rfl
  | nextSlot => cases h; rfl
  | previousSlot =>
    obtain ⟨slots, -, rfl⟩ := Option.map_eq_some_iff.1 h
    rfl

theorem keypad_obey {s s' : Session} {broken : Option DeviceCall} {commands : List Command}
    (h : s.obey broken commands = some (.running, s')) :
    s'.machine.keypad = heldAfter s.machine.keypad (s.loads broken commands) := by
  induction commands generalizing s with
  | nil => cases h; rfl
  | cons c later ih =>
    by_cases hc : c = .quit
    · subst hc
      cases h
    · rw [obey_cons hc, Option.bind_eq_some_iff] at h
      obtain ⟨s₁, hcommand, h⟩ := h
      split at h
      · next s₂ hredraw =>
        have shown : s₂.machine.keypad = s₁.machine.keypad :=
          congrArg (·.machine.keypad) (course_redraw hredraw)
        rw [ih h, loads_cons hc hcommand hredraw, heldAfter_append, shown, keypad_command hcommand]
      · cases h

/-- A machine loaded right before the cycle. -/
theorem exists_atCycle?_load {s : Session} {m : Machine}
    (hload : s.slots.load s.disk s.slots.selected = .ok m) (keypad : Keypad) {elapsed : Nat}
    (htimers : s.timers.advance elapsed ≠ none) (hrecorder : s.recorder.advance elapsed ≠ none) :
    ∃ s₁, s.atCycle? ⟨keypad, [.load], false⟩ elapsed none = some s₁ ∧
      s₁.machine = m.markShown ∧ (s.withKeys keypad).loads none [.load] = [m] := by
  obtain ⟨s₁, hredraw⟩ : ∃ s₁, (s.withKeys keypad).loadSlot.redraw none = .ok s₁ := ⟨_, rfl⟩
  have hobey : (s.withKeys keypad).obey none [.load] = some (.running, s₁) := by
    rw [obey_cons (by decide)]
    simp only [command, Option.bind_some, hredraw]
    rfl
  refine ⟨s₁, atCycle?_eq_some_iff.2 ⟨hobey, rfl, htimers, hrecorder⟩, ?_, ?_⟩
  · cases hredraw
    unfold loadSlot
    simp only [withKeys, hload]
    rfl
  · rw [loads_cons (by decide) rfl hredraw]
    simp [loadBy, loads, withKeys, hload, Except.toOption]

/-! ## Main statement -/

/-- What a turn's cycle is executed with.  Where a turn comes to its cycle, the keys are those of
the machine loaded last, and so the polled ones just if that machine has the same; and it is this
cycle whose fault ends the turn, or whose machine is left after it.  Any other turn has no cycle. -/
theorem keypad_atCycle (s : Session) (poll : Poll) (elapsed : Nat) (broken : Option DeviceCall) :
    (∀ s₁, s.atCycle? poll elapsed broken = some s₁ →
      let loaded := (s.withKeys poll.keypad).loads broken poll.commands
      s₁.machine.keypad = heldAfter poll.keypad loaded ∧
      (s₁.machine.keypad = poll.keypad ↔
        ∀ m, loaded.getLast? = some m → m.keypad = poll.keypad) ∧
      ∃ ticks,
        (s.step poll elapsed broken).map (fun (outcome, s') =>
          (outcome.fault?, s'.machine.markShown, s'.cycles)) =
        s₁.machine.cycle.map fun
          | (.error f, m) => (some f, m.markShown, s.cycles)
          | (.ok _, m) => (none, (m.tickTimers ticks).markShown, s.cycles + 1)) ∧
    (s.atCycle? poll elapsed broken = none → ∀ outcome s',
      s.step poll elapsed broken = some (outcome, s') →
      outcome.fault? = none ∧ s'.cycles = s.cycles) := by
  refine ⟨fun s₁ h => ?_, fun h outcome s' => step_without_cycle h⟩
  obtain ⟨hobey, -, htimers, hrecorder⟩ := atCycle?_eq_some_iff.1 h
  have hkeypad := keypad_obey hobey
  refine ⟨hkeypad, hkeypad ▸ heldAfter_eq_iff, ?_⟩
  have hcycles : s₁.cycles = s.cycles := (obey_sameTime hobey).1.cycles
  obtain ⟨⟨ticks, timers⟩, htimers⟩ := Option.ne_none_iff_exists'.1 htimers
  obtain ⟨⟨recordings, recorder⟩, hrecorder⟩ := Option.ne_none_iff_exists'.1 hrecorder
  refine ⟨ticks, ?_⟩
  rw [step_of_atCycle? h htimers hrecorder, Option.map_map]
  congr 1
  funext ⟨outcome, m⟩
  cases outcome with
  | error f =>
    rw [← hcycles]
    rfl
  | ok progress =>
    have settled := course_settle { s₁ with
      timers, recorder
      machine := m.tickTimers ticks
      history :=
        if recordings = 0 then s₁.history else s₁.history.record (m.tickTimers ticks)
      cycles := s₁.cycles + 1 } broken
    rw [← hcycles]
    exact Prod.ext (fault?_settle _ _)
      (Prod.ext (congrArg Course.machine settled) (congrArg Course.cycles settled))

/-- A machine in its slot, and a session that has not begun. -/
theorem exists_start_saved (m : Machine) :
    let slots : Slots := ⟨⟨"saves"⟩, "pong", 6, 0⟩
    ∃ disk s, slots.save .blank 0 m = (.ok (), disk) ∧ start .default m slots disk = some (.ok s) ∧
      s.slots.load s.disk s.slots.selected = .ok m ∧ s.timers.advance 0 ≠ none ∧
      s.recorder.advance 0 ≠ none := by
  intro slots
  have hsave : (slots.save .blank 0 m).1 = .ok () := by
    show (Slots.save ⟨⟨"saves"⟩, "pong", 6, 0⟩ Disk.blank 0 m).1 = _
    with_unfolding_all rfl
  have hslots : slots.Over ⟨"saves"⟩ := ⟨rfl, by decide⟩
  have holds := SaveCall.holds_perform (Slots.holds_none (Disk.noSaves_blank _))
    (c := ⟨slots, 0, m, none⟩) hslots
  have hload := holds.load_eq hslots (by decide : (0 : UInt64) < 6)
  simp only [SaveCall.perform, Slots.saveWith_none, hsave, SaveCall.kept] at hload
  obtain ⟨s, hstart⟩ := exists_start Settings.firstZero?_default (by decide) m slots
    (slots.save .blank 0 m).2
  obtain ⟨-, -, hs, hd, -, htimers, hrecorder⟩ := start_eq_some_ok hstart
  have steady : (Cadence.perSecond 60).advance 0 ≠ none := by decide
  refine ⟨(slots.save .blank 0 m).2, s, Prod.ext hsave rfl, hstart, ?_, ?_, ?_⟩
  · rw [hs, hd]
    exact hload
  · rw [htimers]
    exact steady
  · rw [hrecorder]
    exact steady

/-- Key 5 is held and the keys of the cycle are those of the machine in the slot. -/
theorem keypad_atCycle_saved :
    let m := Machine.ofSeed ⟨false, false⟩ 3
    let loading : Poll := ⟨.ofKeys [5], [.load], false⟩
    let quitting : Poll := ⟨.ofKeys [5], [.quit], false⟩
    ∃ disk s s₁ s₂, start .default m ⟨⟨"saves"⟩, "pong", 6, 0⟩ disk = some (.ok s) ∧
      s.atCycle? loading 0 none = some s₁ ∧ s₁.machine.keypad = .released ∧
      s.atCycle? quitting 0 none = none ∧ s.step quitting 0 none = some (.quit, s₂) ∧
      s₂.cycles = s.cycles := by
  intro m loading quitting
  obtain ⟨disk, s, -, hstart, hload, htimers, hrecorder⟩ := exists_start_saved m
  obtain ⟨s₁, hcycle, -, hloads⟩ :=
    exists_atCycle?_load hload loading.keypad htimers hrecorder
  have hkeypad := ((keypad_atCycle s loading 0 none).1 s₁ hcycle).1
  rw [hloads] at hkeypad
  have hquit := (keypad_atCycle s quitting 0 none).2 rfl _ _ rfl
  exact ⟨disk, s, s₁, _, hstart, hcycle, hkeypad, rfl, rfl, hquit.2⟩

/-- A program that awaits a key, saved with no key held, awaits it still when it is loaded in a turn
that finds key 5 held. -/
theorem keypad_not_polled :
    let slots : Slots := ⟨⟨"saves"⟩, "pong", 6, 0⟩
    let poll : Poll := ⟨.ofKeys [5], [.load], false⟩
    ∃ m disk s s₁, (Machine.ofSeed ⟨false, false⟩ 3).load [0xF0, 0x0A] = some (.ok m) ∧
      slots.save .blank 0 m = (.ok (), disk) ∧ start .default m slots disk = some (.ok s) ∧
      s.atCycle? poll 0 none = some s₁ ∧ s₁.machine.keypad ≠ poll.keypad ∧
      s₁.machine.cycle.map Prod.fst = some (.ok .awaitingKey) ∧
      (s₁.machine.setKeypad poll.keypad).cycle.map Prod.fst = some (.ok .executed) := by
  intro slots poll
  have full : Memory.size ≤ Memory.blank.bytes.size := Nat.le_of_eq Memory.size_blank.symm
  have fits : ([0xF0, 0x0A] : List UInt8).length ≤ Memory.maxProgram := by decide
  obtain ⟨memory, hmemory⟩ := Memory.load_of_fits full fits
  have hword := Memory.word?_load hmemory
  have hdecode : Instruction.decode 0xF00A = some (.awaitKey Register.first) := rfl
  obtain ⟨disk, s, hsave, hstart, hload, htimers, hrecorder⟩ :=
    exists_start_saved { Machine.ofSeed ⟨false, false⟩ 3 with memory }
  obtain ⟨s₁, hcycle, hs₁, -⟩ := exists_atCycle?_load hload poll.keypad htimers hrecorder
  refine ⟨_, disk, s, s₁, ?_, hsave, hstart, hcycle, ?_, ?_, ?_⟩
  · show (Memory.blank.load [0xF0, 0x0A]).map _ = _
    rw [hmemory]
    rfl
  · rw [hs₁]
    show Keypad.released ≠ Keypad.ofKeys [5]
    decide
  · rw [hs₁]
    exact Machine.progress_awaitKey hword hdecode
  · rw [hs₁]
    exact Machine.progress_awaitKey hword hdecode

end Session

end Chip8
