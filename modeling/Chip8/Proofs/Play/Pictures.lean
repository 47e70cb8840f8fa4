import Chip8.Proofs.Machine.Sides
import Chip8.Proofs.Play.Rounds

/-!
# Pictures

The display is given a picture at two places: after each command, and at the end of a turn if the
screen is stale by then.  Nothing else touches it, and what changes a screen makes it stale.  So in a
turn that goes on

    s'.display.shown = s.display.shown + r.poll.commands.length + (if s.showsMore r then 1 else 0)

where one more is shown if the turn redraws, or finds a stale screen that no command has shown
(`shown_step`).  The last picture of a turn is of the screen that the turn leaves, and a turn without
one leaves the screen as it was; over many turns a display that shows the screen goes on showing it
(`showsScreen_rounds`).
-/

namespace Chip8

theorem Instruction.redraws_iff {i : Instruction} :
    i.redraws = true ↔ i.part? = some .screen := by
  cases i <;> simp [redraws, part?]

/-- A screen that is drawn on is stale, and any other is as it was. -/
theorem Machine.screen_cycle {m m' : Machine} {i : Instruction} {progress : Progress}
    (hi : m.next? = some i) (h : m.cycle = some (.ok progress, m')) :
    m'.stale = (i.redraws || m.stale) ∧ (i.redraws = false → m'.screen = m.screen) := by
  obtain ⟨opcode, hcycle⟩ := cycle_of_next? hi
  have footprint := footprint_execute (hcycle.symm.trans h)
  constructor
  · rw [Bool.eq_iff_iff, footprint.stale, Bool.or_eq_true, Instruction.redraws_iff, or_comm]
  · intro spared
    have other : i.part? ≠ some .screen := by
      intro drawn
      rw [Instruction.redraws_iff.2 drawn] at spared
      cases spared
    exact footprint.parts .screen other

namespace Session

/-! ## Pictures shown -/

/-- The last picture shown is of the screen as it is. -/
def ShowsScreen (s : Session) : Prop := s.display.last.map (·.screen) = some s.machine.screen

/-- So many pictures were shown, the last of them of the screen that there is in the end; without one
the screen is as it was. -/
structure Shown (s s' : Session) (pictures : Nat) : Prop where
  count : s'.display.shown = s.display.shown + pictures
  last : 0 < pictures → s'.ShowsScreen
  still : pictures = 0 → s'.display = s.display ∧ s'.machine.screen = s.machine.screen

section
variable {s s' s'' : Session} {pictures more : Nat}

theorem Shown.none (display : s'.display = s.display)
    (screen : s'.machine.screen = s.machine.screen) : s.Shown s' 0 where
  count := by rw [display, Nat.add_zero]
  last := by simp
  still := fun _ => ⟨display, screen⟩

theorem Shown.one {picture : Picture} (display : s'.display = s.display.show picture)
    (screen : picture.screen = s'.machine.screen) : s.Shown s' 1 where
  count := by rw [display, Display.show]
  last := by
    intro
    unfold ShowsScreen
    rw [display, ← screen]
    rfl
  still := by simp

/-- A display that shows the screen still does after any pictures. -/
theorem ShowsScreen.shown (h : s.ShowsScreen) (shown : s.Shown s' pictures) : s'.ShowsScreen := by
  rcases Nat.eq_zero_or_pos pictures with none_shown | some_shown
  · obtain ⟨display, screen⟩ := shown.still none_shown
    unfold ShowsScreen at h ⊢
    rw [display, screen]
    exact h
  · exact shown.last some_shown

theorem Shown.trans (h : s.Shown s' pictures) (h' : s'.Shown s'' more) :
    s.Shown s'' (pictures + more) where
  count := by rw [h'.count, h.count, Nat.add_assoc]
  last := by
    intro some_shown
    rcases Nat.eq_zero_or_pos more with none_more | some_more
    · have before : s'.ShowsScreen := h.last (by omega)
      exact before.shown h'
    · exact h'.last some_more
  still := by
    intro none_shown
    obtain ⟨display, screen⟩ := h.still (by omega)
    obtain ⟨display', screen'⟩ := h'.still (by omega)
    exact ⟨display'.trans display, screen'.trans screen⟩

theorem shown_redraw {s₀ : Session} (h : s.redraw none = .ok s')
    (display : s.display = s₀.display) : s₀.Shown s' 1 ∧ s'.machine.stale = false := by
  cases h
  have given : (s.display.show ⟨s.machine.screen, s.status⟩) =
      s₀.display.show ⟨s.machine.screen, s.status⟩ := by rw [display]
  exact ⟨.one given rfl, rfl⟩

/-! ## Commands -/

theorem display_command {c : Command} (h : s.command c = some s') : s'.display = s.display := by
  obtain ⟨_, _, _, _, rfl⟩ := eq_of_command h
  rfl

/-- Each command is shown once, and then nothing is stale. -/
theorem shown_obey {commands : List Command} (h : s.obey none commands = some (.running, s')) :
    s.Shown s' commands.length ∧
      s'.machine.stale = (s.machine.stale && commands.isEmpty) := by
  induction commands generalizing s with
  | nil =>
    cases h
    exact ⟨.none rfl rfl, by simp⟩
  | cons c later ih =>
    have hc : c ≠ .quit := by
      rintro rfl
      cases h
    rw [obey_cons hc, Option.bind_eq_some_iff] at h
    obtain ⟨s₁, hcommand, h⟩ := h
    obtain ⟨s₂, hredraw⟩ : ∃ s₂, s₁.redraw none = .ok s₂ := ⟨_, rfl⟩
    rw [hredraw] at h
    obtain ⟨rest, stale⟩ := ih h
    obtain ⟨first, fresh⟩ := shown_redraw hredraw (display_command hcommand)
    constructor
    · rw [List.length_cons, Nat.add_comm]
      exact first.trans rest
    · rw [stale, fresh, Bool.false_and, List.isEmpty_cons, Bool.and_false]

end

/-! ## Between commands and end -/

/-- The machine that a turn goes back to, if one is due and there is one. -/
def regained? (s : Session) (r : Round) : Option Machine :=
  match s.atMove? r with
  | none => none
  | some (_, recordings, s₁) =>
    if r.poll.rewinding ∧ recordings ≠ 0 then s₁.history.rewind.1 else none

/-- A turn draws on the screen, or takes it over from a machine that it goes back to. -/
def redraws (s : Session) (r : Round) : Bool :=
  (s.instruction? r).any (·.redraws) || (s.regained? r).isSome

/-- A turn has something to show at its end: it has redrawn the screen, or found it stale with no
command to show it. -/
def showsMore (s : Session) (r : Round) : Bool :=
  s.redraws r || (s.machine.stale && r.poll.commands.isEmpty)

section
variable {s s₁ : Session} {r : Round} {ticks recordings : Nat}
  (hmove : s.atMove? r = some (ticks, recordings, s₁))
include hmove

theorem regained?_of_backwards (backwards : r.poll.rewinding = true) :
    s.regained? r = if recordings = 0 then none else s₁.history.rewind.1 := by
  simp [regained?, hmove, backwards]

theorem regained?_of_forwards (forwards : r.poll.rewinding = false) : s.regained? r = none := by
  simp [regained?, hmove, forwards]

end

theorem screen_goBack (s : Session) :
    s.goBack.display = s.display ∧
      s.goBack.machine.stale = (s.history.rewind.1.isSome || s.machine.stale) ∧
      (s.history.rewind.1 = none → s.goBack.machine = s.machine) := by
  unfold goBack
  rcases s.history.rewind with ⟨_ | m, history⟩
  · exact ⟨rfl, rfl, fun _ => rfl⟩
  · exact ⟨rfl, rfl, by simp⟩

/-- What a turn that goes on does between its commands and its end: it shows nothing, and leaves a
screen that is as it was or stale. -/
theorem exists_moved {s s' : Session} {r : Round} (works : r.broken = none)
    (h : s.step r.poll r.elapsed r.broken = some (.running, s')) :
    ∃ s₀ s₁ : Session, (s.withKeys r.poll.keypad).obey none r.poll.commands = some (.running, s₀) ∧
      s₁.settle none = (.running, s') ∧ s₁.display = s₀.display ∧
      s₁.machine.stale = (s.redraws r || s₀.machine.stale) ∧
      (s.redraws r = false → s₁.machine.screen = s₀.machine.screen) := by
  obtain ⟨poll, elapsed, broken⟩ := r
  obtain rfl : broken = none := works
  cases comes_of_step h with
  | stopped htold ended => exact absurd rfl ended
  | @back ticks recordings s₁ _ _ hmove backwards settled =>
    have none_executed := instruction?_of_backwards hmove backwards
    have regained := regained?_of_backwards hmove backwards
    obtain ⟨s₀, timers, recorder, htold, -, -, rfl⟩ := atMove?_eq_some_iff.1 hmove
    refine ⟨s₀, _, htold, settled, ?_⟩
    rw [redraws, none_executed, regained, wentBack]
    split
    · exact ⟨rfl, rfl, fun _ => rfl⟩
    · obtain ⟨display, stale, still⟩ := screen_goBack { s₀ with timers, recorder }
      refine ⟨display, stale, fun none_regained => ?_⟩
      -- A history with nothing to give leaves the machine, and only the message is another.
      have empty : s₀.history.rewind.1 = none := by simpa using none_regained
      rw [still empty]
  | @forth ticks recordings s₁ progress m _ _ hmove forwards hcycle settled =>
    obtain ⟨i, hi⟩ := Machine.exists_next?_of_ok hcycle
    have executed := instruction?_of_executed hmove forwards hcycle
    have none_regained := regained?_of_forwards hmove forwards
    obtain ⟨stale, same⟩ := Machine.screen_cycle hi hcycle
    obtain ⟨s₀, timers, recorder, htold, -, -, rfl⟩ := atMove?_eq_some_iff.1 hmove
    rw [redraws, executed, hi, none_regained, Option.any_some, Option.isSome_none, Bool.or_false]
    exact ⟨s₀, _, htold, settled, rfl, stale, same⟩

/-- At the end a stale screen is shown. -/
theorem shown_settle {s₀ s₁ s' : Session} {outcome : Outcome}
    (settled : s₁.settle none = (outcome, s')) (display : s₁.display = s₀.display)
    (screen : s₁.machine.stale = false → s₁.machine.screen = s₀.machine.screen) :
    s₀.Shown s' (if s₁.machine.stale then 1 else 0) ∧ s'.machine.stale = false := by
  rw [settle, sound_none] at settled
  by_cases stale : s₁.machine.stale = true
  · simp only [refresh, stale, if_true] at settled
    cases settled
    rw [if_pos stale]
    exact shown_redraw rfl display
  · simp only [refresh, stale] at settled
    cases settled
    rw [if_neg stale]
    have fresh := Bool.of_not_eq_true stale
    exact ⟨.none display (screen fresh), fresh⟩

/-! ## A turn -/

/-- The pictures of a turn that goes on. -/
theorem shown_of_step {s s' : Session} {r : Round} (works : r.broken = none)
    (h : s.step r.poll r.elapsed r.broken = some (.running, s')) :
    s.Shown s' (r.poll.commands.length + if s.showsMore r then 1 else 0) ∧
      s'.machine.stale = false := by
  obtain ⟨s₀, s₁, hobey, settled, display, stale, same⟩ := exists_moved works h
  obtain ⟨commanded, stale₀⟩ := shown_obey hobey
  have begun : s.Shown (s.withKeys r.poll.keypad) 0 := .none rfl rfl
  have told := begun.trans commanded
  rw [Nat.zero_add] at told
  obtain ⟨ended, fresh⟩ := shown_settle settled display fun fresh => by
    rw [stale, Bool.or_eq_false_iff] at fresh
    exact same fresh.1
  have more : s₁.machine.stale = s.showsMore r := by
    rw [stale, stale₀]
    rfl
  rw [more] at ended
  exact ⟨told.trans ended, fresh⟩

/-- A display that shows the screen goes on showing it, over any number of turns. -/
theorem showsScreen_rounds {s s' : Session} {rounds : List Round} {outcomes : List Outcome}
    (hs : s.ShowsScreen) (works : ∀ r ∈ rounds, r.broken = none)
    (hrun : s.rounds rounds = some (outcomes, s')) (going : ∀ o ∈ outcomes, o = .running) :
    s'.ShowsScreen := by
  induction rounds generalizing s outcomes with
  | nil =>
    cases hrun
    exact hs
  | cons r later ih =>
    obtain ⟨outcome, s₁, after, hstep, hlater, rfl⟩ := rounds_cons_eq_some_iff.1 hrun
    rw [List.forall_mem_cons] at works going
    rw [going.1] at hstep
    have shown := (shown_of_step works.1 hstep).1
    exact ih (hs.shown shown) works.2 hlater going.2

/-! ## Main statement -/

/-- After a turn that goes on the screen is not stale.  If it is another than before, it was shown in
the turn, and last.  As many pictures were shown as there were commands, and one more exactly if the
turn executed an instruction that draws, went back to a machine, or found the screen stale and had no
command. -/
theorem shown_step {s s' : Session} {r : Round} (works : r.broken = none)
    (h : s.step r.poll r.elapsed r.broken = some (.running, s')) :
    s'.machine.stale = false ∧
    (s'.machine.screen ≠ s.machine.screen →
      s.display.shown < s'.display.shown ∧
        ∃ picture, s'.display.last = some picture ∧ picture.screen = s'.machine.screen) ∧
    s'.display.shown =
      s.display.shown + r.poll.commands.length + (if s.showsMore r then 1 else 0) ∧
    (s.showsMore r = true ↔
      (∃ i, s.instruction? r = some i ∧ i.redraws = true) ∨ (∃ m, s.regained? r = some m) ∨
        s.machine.stale = true ∧ r.poll.commands = []) := by
  obtain ⟨shown, fresh⟩ := shown_of_step works h
  refine ⟨fresh, fun changed => ?_, ?_, ?_⟩
  · have some_shown := Nat.pos_of_ne_zero fun none_shown => changed (shown.still none_shown).2
    have count := shown.count
    exact ⟨by omega, Option.map_eq_some_iff.1 (shown.last some_shown)⟩
  · rw [shown.count, Nat.add_assoc]
  · simp [showsMore, redraws, Option.any_eq_true, Option.isSome_iff_exists, or_assoc]

/-- A session whose program begins by clearing the screen. -/
theorem exists_start_clear :
    ∃ s : Session, s.machine.next? = some .clear ∧ s.timers.advance 0 = some (0, s.timers) ∧
      s.recorder.advance 0 = some (0, s.recorder) := by
  let program : List UInt8 := [0x00, 0xE0]
  obtain ⟨memory, hmemory, -⟩ := Memory.exists_load_blank (by decide : program.length ≤ _)
  obtain ⟨s, hstart⟩ := exists_start Settings.firstZero?_default (by decide)
    { Machine.ofSeed ⟨false, false⟩ 3 with memory } ⟨⟨"saves"⟩, "pong", 2, 0⟩ .blank
  obtain ⟨-, hmachine, -⟩ := start_eq_some_ok hstart
  have hnext : s.machine.next? = some .clear := by
    rw [hmachine]
    exact Machine.next?_of_load hmemory 0 rfl rfl rfl (by decide)
  exact ⟨s, hnext, still_of_start hstart⟩

/-- A turn with a command, in which the program then clears the screen: both are shown. -/
theorem shown_step_clear :
    let r : Round := ⟨⟨.released, [.nextSlot], false⟩, 0, none⟩
    ∃ s s' : Session, r.broken = none ∧
      s.step r.poll r.elapsed r.broken = some (.running, s') ∧
      s.instruction? r = some .clear ∧ s'.machine.stale = false ∧
      s'.display.shown = s.display.shown + 1 + 1 := by
  intro r
  obtain ⟨s, hnext, htimers, hrecorder⟩ := exists_start_clear
  obtain ⟨s₁, hmove, hnext⟩ : ∃ s₁ : Session, s.atMove? r = some (0, 0, s₁) ∧
      s₁.machine.next? = some .clear :=
    ⟨_, atMove?_eq_some_iff.2 ⟨_, _, _, rfl, htimers, hrecorder, rfl⟩, hnext⟩
  obtain ⟨opcode, hcycle⟩ := Machine.cycle_of_next? hnext
  have executed : s.instruction? r = some .clear :=
    (instruction?_of_executed hmove rfl hcycle).trans hnext
  have works : r.broken = none := rfl
  have h : s.step r.poll r.elapsed r.broken = some (.running, _) :=
    (step_of_executed hmove rfl hcycle).trans (congrArg some (Prod.ext (settle_none _) rfl))
  obtain ⟨fresh, -, count, more⟩ := shown_step works h
  rw [if_pos (more.2 (.inl ⟨.clear, executed, rfl⟩))] at count
  exact ⟨s, _, works, h, executed, fresh, count⟩

end Session

end Chip8
