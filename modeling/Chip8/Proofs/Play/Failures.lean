import Chip8.Proofs.Play.Rounds
import Chip8.Proofs.Storage.Litter

/-!
# Saves and loads that fail

A save or a load that fails takes part in a turn with its message and its picture and with nothing
else: without it (`kept`) the turn comes to the same for all that matters of a session (`Matter`).

    made = { s with disk := (s.disk.makeDirectories s.slots.directory).2 }
    (s.step poll elapsed none).map upshot = (made.step kept elapsed none).map upshot    (step_kept)

The two turns go through their commands side by side (`Alike.command`).  A failed save may leave
directories and a staging file on the disk of one of them, which no later command can tell
(`Slots.Shadows`), but for the directory of the saves: where that opens a way to a file, a load may
go well because of a save that failed (`step_kept_unmade`).
-/

namespace Chip8

/-- All of a session but its disk, its display and its message. -/
structure Matter where
  machine : Machine
  history : History Machine
  slots : Slots
  tone : Tone
  timers : Cadence
  recorder : Cadence
  cyclePeriod : Nat
  cycles : Nat
  deriving DecidableEq, Repr

namespace Session

def matter (s : Session) : Matter where
  machine := s.machine
  history := s.history
  slots := s.slots
  tone := s.tone
  timers := s.timers
  recorder := s.recorder
  cyclePeriod := s.cyclePeriod
  cycles := s.cycles

/-- What came of a turn, for the matter of the session. -/
def upshot (result : Outcome × Session) : Outcome × Matter := (result.1, result.2.matter)

/-! ## What does not matter -/

section
variable {s t : Session} (h : s.matter = t.matter)
include h

theorem exists_eq_of_matter :
    ∃ disk display message, t = { s with disk, display, message } := by
  refine ⟨t.disk, t.display, t.message, ?_⟩
  cases s
  cases t
  cases h
  rfl

theorem matter_goOn (ticks recordings : Nat) :
    (s.goOn ticks recordings).map upshot = (t.goOn ticks recordings).map upshot := by
  obtain ⟨disk, display, message, rfl⟩ := exists_eq_of_matter h
  simp only [goOn]
  rcases s.machine.cycle with _ | ⟨f | progress, m⟩ <;> rfl

theorem matter_goBack : s.goBack.matter = t.goBack.matter := by
  obtain ⟨disk, display, message, rfl⟩ := exists_eq_of_matter h
  simp only [goBack]
  split <;> rfl

theorem matter_move (rewinding : Bool) (elapsed : Nat) :
    (s.move rewinding elapsed).map upshot = (t.move rewinding elapsed).map upshot := by
  obtain ⟨disk, display, message, rfl⟩ := exists_eq_of_matter h
  simp only [move]
  rcases s.timers.advance elapsed with _ | ⟨ticks, timers⟩
  · rfl
  rcases s.recorder.advance elapsed with _ | ⟨recordings, recorder⟩
  · rfl
  let s₁ : Session := { s with timers, recorder }
  let t₁ : Session := { s with disk, display, message, timers, recorder }
  have same : s₁.matter = t₁.matter := rfl
  cases rewinding with
  | true =>
    by_cases none_due : recordings = 0
    · subst none_due
      rfl
    · show some (Outcome.running, (if recordings = 0 then s₁ else s₁.goBack).matter) =
        some (Outcome.running, (if recordings = 0 then t₁ else t₁.goBack).matter)
      rw [if_neg none_due, if_neg none_due, matter_goBack same]
  | false => exact matter_goOn same ticks recordings

/-- Devices that work do nothing that depends on more. -/
theorem matter_settle : upshot (s.settle none) = upshot (t.settle none) := by
  obtain ⟨disk, display, message, rfl⟩ := exists_eq_of_matter h
  rw [settle, settle, sound_none, sound_none]
  simp only [refresh]
  by_cases stale : s.machine.stale = true
  · simp only [stale, if_true]
    rfl
  · simp only [stale]
    rfl

end

/-! ## Commands that fail -/

/-- Whether a command is a save or a load that fails. -/
def fails (s : Session) : Command → Bool
  | .save => !(s.slots.save s.disk s.slots.selected s.machine).1.isOk
  | .load => !(s.slots.load s.disk s.slots.selected).isOk
  | _ => false

/-- The session once the display, which works, has shown it. -/
def shown (s : Session) : Session :=
  { s with
    display := s.display.show ⟨s.machine.screen, s.status⟩
    machine := s.machine.markShown }

/-- Commands without those that fail when it is their turn. -/
def kept (s : Session) : List Command → List Command
  | [] => []
  | c :: later =>
    if c = .quit then c :: later
    else
      match s.command c with
      | none => c :: later
      | some after =>
        if s.fails c then after.shown.kept later else c :: after.shown.kept later

theorem obey_none_cons {s : Session} {c : Command} (hc : c ≠ .quit) (later : List Command) :
    s.obey none (c :: later) = (s.command c).bind fun after => after.shown.obey none later := by
  rw [obey_cons hc]
  rfl

/-- The second session has gone without the commands that failed in the first. -/
structure Alike (s t : Session) : Prop where
  matter : s.matter = t.matter
  shown : s.machine.stale = false
  shadows : s.slots.Shadows s.disk t.disk

namespace Alike

variable {s t : Session} (h : s.Alike t)
include h

/-- Nothing that matters has changed but the disk, to one that is still followed. -/
theorem litter {disk : Disk} (shadows : s.slots.Shadows disk t.disk) (message : String) :
    Alike { s with disk, message }.shown t where
  matter := by
    rw [← h.matter]
    show { s.matter with machine := s.machine.markShown } = s.matter
    rw [Machine.markShown_of_shown h.shown]
    rfl
  shown := rfl
  shadows := shadows

theorem save :
    if s.fails .save then s.saveSlot.shown.Alike t
    else ∃ t', t.command .save = some t' ∧ s.saveSlot.shown.Alike t'.shown := by
  obtain ⟨disk, display, message, rfl⟩ := exists_eq_of_matter h.matter
  unfold saveSlot fails
  rcases hsave : s.slots.save s.disk s.slots.selected s.machine with ⟨failure | ⟨⟩, d'⟩
  · exact h.litter (h.shadows.save_error hsave) _
  · obtain ⟨e', hsave', shadows⟩ := h.shadows.save_ok hsave
    refine ⟨_, rfl, ?_⟩
    simp only [saveSlot, hsave']
    exact ⟨rfl, rfl, shadows⟩

theorem load :
    if s.fails .load then s.loadSlot.shown.Alike t
    else ∃ t', t.command .load = some t' ∧ s.loadSlot.shown.Alike t'.shown := by
  obtain ⟨disk, display, message, rfl⟩ := exists_eq_of_matter h.matter
  unfold loadSlot fails
  rcases hload : s.slots.load s.disk s.slots.selected with failure | m
  · show Alike (Session.shown (if failure.isRecoverable then _ else _)) _
    split
    · exact h.litter h.shadows _
    · exact h.litter h.shadows _
  · refine ⟨_, rfl, ?_⟩
    simp only [loadSlot, h.shadows.load hload]
    exact ⟨rfl, rfl, h.shadows⟩

/-- The paths of slots do not depend on which is selected. -/
theorem select {slots : Slots} (hdirectory : slots.directory = s.slots.directory)
    (hprogram : slots.program = s.slots.program) :
    Alike { s with slots, message := "" }.shown { t with slots, message := "" }.shown := by
  obtain ⟨disk, display, message, rfl⟩ := exists_eq_of_matter h.matter
  exact ⟨rfl, rfl, h.shadows.congr hdirectory hprogram⟩

/-- One command that is obeyed, in both sessions unless it fails in the first. -/
theorem command {c : Command} {s' : Session} (hc : s.command c = some s') (other : c ≠ .quit) :
    if s.fails c then s'.shown.Alike t
    else ∃ t', t.command c = some t' ∧ s'.shown.Alike t'.shown := by
  have same : s.slots = t.slots := congrArg Matter.slots h.matter
  cases c with
  | quit => exact absurd rfl other
  | save =>
    cases hc
    exact h.save
  | load =>
    cases hc
    exact h.load
  | nextSlot =>
    cases hc
    refine ⟨_, rfl, ?_⟩
    rw [← same]
    exact h.select rfl rfl
  | previousSlot =>
    obtain ⟨slots, hslots, rfl⟩ := Option.map_eq_some_iff.1 hc
    rw [same] at hslots
    refine ⟨_, Option.map_eq_some_iff.2 ⟨slots, hslots, rfl⟩, ?_⟩
    unfold Slots.selectPrevious? at hslots
    split at hslots <;> cases hslots
    exact h.select (congrArg Slots.directory same).symm (congrArg Slots.program same).symm

theorem command_none {c : Command} (hc : s.command c = none) : t.command c = none := by
  have same : s.slots = t.slots := congrArg Matter.slots h.matter
  cases c with
  | quit | save | load | nextSlot => cases hc
  | previousSlot =>
    rw [Session.command, Option.map_eq_none_iff, same] at hc
    rw [Session.command, hc]
    rfl

omit h in
theorem obey (h : s.Alike t) (commands : List Command) :
    (s.obey none commands = none ∧ t.obey none (s.kept commands) = none) ∨
      ∃ outcome s' t', s.obey none commands = some (outcome, s') ∧
        t.obey none (s.kept commands) = some (outcome, t') ∧ s'.Alike t' := by
  induction commands generalizing s t with
  | nil => exact .inr ⟨.running, s, t, rfl, rfl, h⟩
  | cons c later ih =>
    by_cases quit : c = .quit
    · subst quit
      exact .inr ⟨.quit, s, t, rfl, rfl, h⟩
    rw [kept, if_neg quit, obey_none_cons quit]
    cases hc : s.command c with
    | none =>
      left
      refine ⟨rfl, ?_⟩
      simp only
      rw [obey_none_cons quit, h.command_none hc]
      rfl
    | some after =>
      have obeyed := h.command hc quit
      simp only [Option.bind_some]
      split at obeyed
      · next failed =>
        rw [if_pos failed]
        exact ih obeyed
      · next well =>
        obtain ⟨after', hc', alike⟩ := obeyed
        rw [if_neg well, obey_none_cons quit, hc']
        exact ih alike

end Alike

/-! ## The rest of the turn -/

/-- A turn from the end of its commands on. -/
def afterCommands (rewinding : Bool) (elapsed : Nat) :
    Outcome × Session → Option (Outcome × Session)
  | (.running, s) => (s.move rewinding elapsed).map fun
    | (.running, s) => s.settle none
    | ended => ended
  | ended => some ended

theorem step_eq_afterCommands (s : Session) (poll : Poll) (elapsed : Nat) :
    s.step poll elapsed none =
      ((s.withKeys poll.keypad).obey none poll.commands).bind
        (afterCommands poll.rewinding elapsed) := by
  show Option.bind _ _ = _
  congr 1
  funext ⟨outcome, s₁⟩
  cases outcome with
  | quit | failed problem => rfl
  | running =>
    show Option.bind _ _ = Option.map _ _
    rw [Option.map_eq_bind]
    congr 1
    funext ⟨outcome, s₂⟩
    cases outcome <;> rfl

theorem cases_of_upshot {a b : Option (Outcome × Session)} (h : a.map upshot = b.map upshot) :
    (a = none ∧ b = none) ∨ ∃ outcome s t, a = some (outcome, s) ∧ b = some (outcome, t) ∧
      s.matter = t.matter := by
  rcases a with _ | ⟨outcome, s⟩ <;> rcases b with _ | ⟨outcome', t⟩
  · exact .inl ⟨rfl, rfl⟩
  · cases h
  · cases h
  · obtain ⟨rfl, same⟩ := Prod.mk.inj (Option.some.inj h)
    exact .inr ⟨outcome, s, t, rfl, rfl, same⟩

/-- Two turns that have come to the same so far come to the same in the end. -/
theorem matter_afterCommands (outcome : Outcome) {s t : Session} (h : s.matter = t.matter)
    (rewinding : Bool) (elapsed : Nat) :
    (afterCommands rewinding elapsed (outcome, s)).map upshot =
      (afterCommands rewinding elapsed (outcome, t)).map upshot := by
  cases outcome with
  | quit | failed problem => exact congrArg some (congrArg (Prod.mk _) h)
  | running =>
    rw [afterCommands, afterCommands]
    rcases cases_of_upshot (matter_move h rewinding elapsed) with
      ⟨hs, ht⟩ | ⟨outcome, s₁, t₁, hs, ht, same⟩
    · rw [hs, ht]
    · rw [hs, ht]
      cases outcome with
      | quit | failed problem => exact congrArg some (congrArg (Prod.mk _) same)
      | running => exact congrArg some (matter_settle same)

namespace Alike

variable {s t : Session} (h : s.Alike t)
include h

theorem withKeys (keypad : Keypad) : (s.withKeys keypad).Alike (t.withKeys keypad) where
  matter := by
    show { s.matter with machine := s.matter.machine.setKeypad keypad } = _
    rw [h.matter]
    rfl
  shown := h.shown
  shadows := h.shadows

/-- Nothing that matters comes of the commands that fail. -/
theorem step (poll : Poll) (elapsed : Nat) :
    (s.step poll elapsed none).map upshot =
      (t.step { poll with commands := (s.withKeys poll.keypad).kept poll.commands }
        elapsed none).map upshot := by
  rw [step_eq_afterCommands, step_eq_afterCommands]
  rcases (h.withKeys poll.keypad).obey poll.commands with
    ⟨hs, ht⟩ | ⟨outcome, s', t', hs, ht, alike⟩
  · rw [hs, ht]
  · rw [hs, ht]
    exact matter_afterCommands outcome alike.matter poll.rewinding elapsed

end Alike

theorem obey_none_ne_failed {s s' : Session} {commands : List Command} {problem : TurnError} :
    s.obey none commands ≠ some (.failed problem, s') := by
  intro h
  induction commands generalizing s with
  | nil => cases h
  | cons c later ih =>
    by_cases quit : c = .quit
    · subst quit
      cases h
    · rw [obey_none_cons quit, Option.bind_eq_some_iff] at h
      obtain ⟨after, -, h⟩ := h
      exact ih h

/-- Where all devices work, it is a cycle of the machine that ends a turn with an error. -/
theorem fault_of_failed {s s' : Session} {poll : Poll} {elapsed : Nat} {problem : TurnError}
    (h : s.step poll elapsed none = some (.failed problem, s')) :
    ∃ ticks recordings s₁ f m, s.atMove? ⟨poll, elapsed, none⟩ = some (ticks, recordings, s₁) ∧
      poll.rewinding = false ∧ s₁.machine.cycle = some (.error f, m) ∧ problem = .fault f := by
  have settles (s : Session) : s.settle none ≠ (.failed problem, s') := by
    intro settled
    have running := settle_none s
    rw [settled] at running
    cases running
  rcases comes_of_step (r := ⟨poll, elapsed, none⟩) h with
    ⟨htold, -⟩ | ⟨-, -, settled⟩ | ⟨hmove, forwards, hcycle⟩ | ⟨-, -, -, settled⟩
  · exact absurd htold obey_none_ne_failed
  · exact absurd settled (settles _)
  · exact ⟨_, _, _, _, _, hmove, forwards, hcycle, rfl⟩
  · exact absurd settled (settles _)

/-! ## Main statement -/

/-- A save or a load that fails might as well not have been asked for, once the directory of the
saves is there: a save makes it first of all, and leaves it.  It makes no difference when that is
done, unless a file of a slot comes within reach by it.  No command ends a turn with an error. -/
theorem step_kept (s : Session) (poll : Poll) (elapsed : Nat) (shown : s.machine.stale = false) :
    let kept : Poll := { poll with commands := (s.withKeys poll.keypad).kept poll.commands }
    let made : Session := { s with disk := (s.disk.makeDirectories s.slots.directory).2 }
    (s.step poll elapsed none).map upshot = (made.step kept elapsed none).map upshot ∧
      (s.slots.Reached s.disk →
        (s.step poll elapsed none).map upshot = (s.step kept elapsed none).map upshot) ∧
      (s.disk.isDirectory s.slots.directory = true → s.slots.Reached s.disk) ∧
      (s.disk.IsTree → (∀ slot, ".." ∉ (s.slots.path slot).names) → s.slots.Reached s.disk) ∧
      ∀ problem s', s.step poll elapsed none = some (.failed problem, s') →
        ∃ ticks recordings s₁ f m,
          s.atMove? ⟨poll, elapsed, none⟩ = some (ticks, recordings, s₁) ∧
          poll.rewinding = false ∧ s₁.machine.cycle = some (.error f, m) ∧ problem = .fault f := by
  intro kept made
  refine ⟨?_, ?_, Slots.reached_of_isDirectory, Slots.reached_of_isTree, ?_⟩
  · have alike : s.Alike made := ⟨rfl, shown, .of_makeDirectories s.slots s.disk⟩
    exact alike.step poll elapsed
  · intro reached
    have alike : s.Alike s := ⟨rfl, shown, .of_reached reached⟩
    exact alike.step poll elapsed
  · intro problem s' h
    exact fault_of_failed h

/-- A turn backwards before anything is due is over with its commands. -/
theorem exists_step_back_still {s s₁ : Session} {keypad : Keypad} {commands : List Command}
    (htimers : s.timers.advance 0 = some (0, s.timers))
    (hrecorder : s.recorder.advance 0 = some (0, s.recorder))
    (hobey : (s.withKeys keypad).obey none commands = some (.running, s₁)) :
    ∃ s', s.step ⟨keypad, commands, true⟩ 0 none = some (.running, s') ∧
      s'.machine.markShown = s₁.machine.markShown := by
  have hmove : s.atMove? ⟨⟨keypad, commands, true⟩, 0, none⟩ = some (0, 0, _) :=
    atMove?_eq_some_iff.2 ⟨s₁, s.timers, s.recorder, hobey, htimers, hrecorder, rfl⟩
  rw [step_of_atMove? hmove, if_pos rfl]
  let s₂ : Session := { s₁ with timers := s.timers, recorder := s.recorder }
  refine ⟨(s₂.settle none).2, congrArg some (Prod.ext (settle_none s₂) rfl), ?_⟩
  exact congrArg Course.machine (course_settle s₂ none)

/-- Saves whose directory is there, but not the one on the way to it. -/
def roundabout : Slots := ⟨⟨"x/../saves"⟩, "game", 2, 0⟩

/-- A file in the first slot, and a directory where it would be staged. -/
def crowded (bytes : List UInt8) : Disk :=
  ⟨[(["saves", "game_0.sav"], .file bytes), (["saves", "game_0.sav.tmp"], .directory),
    (["saves"], .directory)]⟩

theorem save_crowded (bytes : List UInt8) (m : Machine) :
    roundabout.save (crowded bytes) 0 m =
      (.error (.disk .isADirectory), (crowded bytes).put ["x"] .directory) := by
  with_unfolding_all rfl

theorem load_crowded (bytes : List UInt8) :
    roundabout.load (crowded bytes) 0 = .error (.slotEmpty 0) ∧
      roundabout.load ((crowded bytes).put ["x"] .directory) 0 =
        (SaveFile.read bytes).map (·.machine) := by
  constructor <;> with_unfolding_all rfl

section
variable {s : Session} {bytes : List UInt8} {m : Machine} (hslots : s.slots = roundabout)
  (hdisk : s.disk = crowded bytes) (hread : SaveFile.read bytes = .ok ⟨"game", m⟩)
include hslots hdisk

theorem loadSlot_crowded : s.loadSlot.machine = s.machine := by
  have hload : s.slots.load s.disk s.slots.selected = .error (.slotEmpty 0) := by
    rw [hslots, hdisk]
    exact (load_crowded bytes).1
  rw [loadSlot, hload]
  rfl

/-- The save opens the way, and fails. -/
theorem saveSlot_crowded :
    s.fails .save = true ∧ s.saveSlot.slots = roundabout ∧
      s.saveSlot.disk = (crowded bytes).put ["x"] .directory := by
  have hsave : s.slots.save s.disk s.slots.selected s.machine =
      (.error (.disk .isADirectory), (crowded bytes).put ["x"] .directory) := by
    rw [hslots, hdisk]
    exact save_crowded bytes s.machine
  rw [fails, saveSlot, hsave]
  exact ⟨rfl, hslots, rfl⟩

include hread

/-- The load after it goes well. -/
theorem loadSlot_saveSlot_crowded :
    s.saveSlot.shown.fails .load = false ∧ s.saveSlot.shown.loadSlot.machine = m.markStale := by
  obtain ⟨-, hslots, hdisk⟩ := saveSlot_crowded hslots hdisk
  have hload : s.saveSlot.shown.slots.load s.saveSlot.shown.disk s.saveSlot.shown.slots.selected =
      .ok m := by
    show s.saveSlot.slots.load s.saveSlot.disk s.saveSlot.slots.selected = .ok m
    rw [hslots, hdisk]
    refine (load_crowded bytes).2.trans ?_
    rw [hread]
    rfl
  rw [fails, loadSlot, hload]
  exact ⟨rfl, rfl⟩

end

theorem exists_start_crowded (m m' : Machine) :
    ∃ s, start .default m roundabout (crowded (SaveFile.write ⟨"game", m'⟩)) = some (.ok s) ∧
      s.machine = m ∧ (s.withKeys .released).kept [.save, .load] = [.load] ∧
      (∃ s', s.step ⟨.released, [.save, .load], true⟩ 0 none = some (.running, s') ∧
        s'.machine.markShown = m'.markShown) ∧
      ∃ t', s.step ⟨.released, [.load], true⟩ 0 none = some (.running, t') ∧
        t'.machine.markShown = (m.setKeypad .released).markShown := by
  obtain ⟨s, hstart⟩ := exists_start Settings.firstZero?_default (by decide) m roundabout
    (crowded (SaveFile.write ⟨"game", m'⟩))
  obtain ⟨-, rfl, hslots, hdisk, -⟩ := start_eq_some_ok hstart
  obtain ⟨htimers, hrecorder⟩ := still_of_start hstart
  let u := s.withKeys .released
  have uslots : u.slots = roundabout := hslots
  have udisk : u.disk = crowded (SaveFile.write ⟨"game", m'⟩) := hdisk
  have hread : SaveFile.read (SaveFile.write ⟨"game", m'⟩) = .ok ⟨"game", m'⟩ := by
    simp only [SaveFile.read, SaveFile.parse_write, if_true]
  have unloaded := loadSlot_crowded uslots udisk
  have unsaved := (saveSlot_crowded uslots udisk).1
  obtain ⟨well, loaded⟩ := loadSlot_saveSlot_crowded uslots udisk hread
  have hboth : u.obey none [.save, .load] =
      some (.running, u.saveSlot.shown.loadSlot.shown) := rfl
  have hload : u.obey none [.load] = some (.running, u.loadSlot.shown) := rfl
  refine ⟨s, hstart, rfl, ?_, ?_, ?_⟩
  · show (if u.fails .save then if u.saveSlot.shown.fails .load then [] else [Command.load]
      else _) = _
    rw [if_pos unsaved, well]
    rfl
  · obtain ⟨s', hstep, hmachine⟩ := exists_step_back_still htimers hrecorder hboth
    refine ⟨s', hstep, hmachine.trans ?_⟩
    show u.saveSlot.shown.loadSlot.machine.markShown = _
    rw [loaded]
    rfl
  · obtain ⟨t', hstep, hmachine⟩ := exists_step_back_still htimers hrecorder hload
    refine ⟨t', hstep, hmachine.trans ?_⟩
    show u.loadSlot.machine.markShown = _
    rw [unloaded]
    rfl

/-- The save and the load are the load alone once the way is there. -/
theorem step_kept_opened :
    let m := Machine.ofSeed ⟨false, false⟩ 1
    let m' := { m with registers := m.registers.put Register.first 7 }
    let disk := crowded (SaveFile.write ⟨"game", m'⟩)
    ∃ s, start .default m roundabout disk = some (.ok s) ∧ s.machine.stale = false ∧
      ∃ s' t', s.step ⟨.released, [.save, .load], true⟩ 0 none = some (.running, s') ∧
        { s with disk := (s.disk.makeDirectories s.slots.directory).2 }.step
          ⟨.released, [.load], true⟩ 0 none = some (.running, t') ∧
        s'.matter = t'.matter := by
  intro m m' disk
  obtain ⟨s, hstart, hmachine, hkept, ⟨s', hstep, -⟩, -⟩ := exists_start_crowded m m'
  have shown : s.machine.stale = false := by
    rw [hmachine]
    rfl
  have same := (step_kept s ⟨.released, [.save, .load], true⟩ 0 shown).1
  simp only [hkept, hstep, Option.map_some] at same
  obtain ⟨⟨outcome, t'⟩, hstep', same⟩ := Option.map_eq_some_iff.1 same.symm
  obtain ⟨rfl, same⟩ := Prod.mk.inj same
  exact ⟨s, hstart, shown, s', t', hstep, hstep', same.symm⟩

/-- A save that fails has opened the way to a slot, and what is there is loaded. -/
theorem step_kept_unmade :
    let m := Machine.ofSeed ⟨false, false⟩ 1
    let m' := { m with registers := m.registers.put Register.first 7 }
    let disk := crowded (SaveFile.write ⟨"game", m'⟩)
    ∃ s, start .default m roundabout disk = some (.ok s) ∧ s.machine.stale = false ∧
      (s.withKeys .released).kept [.save, .load] = [.load] ∧
      ∃ s' t', s.step ⟨.released, [.save, .load], true⟩ 0 none = some (.running, s') ∧
        s.step ⟨.released, [.load], true⟩ 0 none = some (.running, t') ∧
        s'.machine.registers.get Register.first = 7 ∧
        t'.machine.registers.get Register.first = 0 := by
  intro m m' disk
  obtain ⟨s, hstart, hmachine, hkept, ⟨s', hstep, loaded⟩, ⟨t', hstep', unloaded⟩⟩ :=
    exists_start_crowded m m'
  have shown : s.machine.stale = false := by
    rw [hmachine]
    rfl
  have seven : s'.machine.registers.get Register.first = 7 :=
    congrArg (·.registers.get Register.first) loaded
  have zero : t'.machine.registers.get Register.first = 0 :=
    congrArg (·.registers.get Register.first) unloaded
  exact ⟨s, hstart, shown, hkept, s', t', hstep, hstep', seven, zero⟩

end Session

end Chip8
