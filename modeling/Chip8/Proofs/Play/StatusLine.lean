import Chip8.Proofs.Play.Pictures
import Chip8.Proofs.Play.Walk

/-!
# The status line

A message is there to be seen on the status line, and a status line is shown with a picture.  Each
command is shown, so what it says is seen at once.  What a turn says that finds nothing to go back to
is seen only if the screen is stale already, since nothing was drawn and no machine taken over:

    s'.message ≠ s.message →
      (s.Tells s' ↔ s.fallsSilent r = false ∨ the last command has the same words on the line)
                                                                                    (tells_step)

A turn can find nothing only as long as nothing was ever recorded (`not_fallsSilent_of_recorded`), and
while none falls silent a display that shows the line goes on showing it (`showsStatus_rounds`).
-/

namespace Chip8

namespace Session

/-- A turn is to go one recording back, and there never was a recording. -/
def findsNothing (s : Session) (r : Round) : Bool :=
  match s.atMove? r with
  | none => false
  | some (_, recordings, s₁) =>
    r.poll.rewinding && recordings != 0 && s₁.history.rewind.1.isNone

/-- A turn has that to say and shows nothing after it: a command has shown the screen, or it was not
stale. -/
def fallsSilent (s : Session) (r : Round) : Bool :=
  s.findsNothing r && !(s.machine.stale && r.poll.commands.isEmpty)

/-- The last picture shown has the status as it is. -/
def ShowsStatus (s : Session) : Prop := s.display.last.map (·.status) = some s.status

/-- Something was shown on the way from `s` to `s'`, and the last status shown has the message in
it. -/
def Tells (s s' : Session) : Prop :=
  s.display.shown < s'.display.shown ∧
    ∃ picture, s'.display.last = some picture ∧ s'.message.toList <:+: picture.status.toList

/-- The status that the last command of a turn leaves on the display. -/
def commandStatus? (s : Session) (r : Round) : Option String :=
  match r.poll.commands, s.told r with
  | _ :: _, some (.running, s₀) => some s₀.status
  | _, _ => none

/-! ## Pictures and the status -/

theorem message_infix_status (s : Session) : s.message.toList <:+: s.status.toList := by
  unfold status
  simp only [String.toList_append]
  exact (List.suffix_append _ _).isInfix

section
variable {s s' : Session}

theorem ShowsStatus.tells (known : s'.ShowsStatus) (shown : s.display.shown < s'.display.shown) :
    s.Tells s' := by
  obtain ⟨picture, hlast, hstatus⟩ := Option.map_eq_some_iff.1 known
  refine ⟨shown, picture, hlast, ?_⟩
  rw [hstatus]
  exact s'.message_infix_status

theorem showsStatus_redraw (h : s.redraw none = .ok s') : s'.ShowsStatus := by
  cases h
  rfl

/-- Commands show the status, and leave one alone that is shown. -/
theorem showsStatus_obey {commands : List Command}
    (h : s.obey none commands = some (.running, s')) (known : commands = [] → s.ShowsStatus) :
    s'.ShowsStatus := by
  induction commands generalizing s with
  | nil =>
    cases h
    exact known rfl
  | cons c later ih =>
    have hc : c ≠ .quit := by
      rintro rfl
      cases h
    rw [obey_cons hc, Option.bind_eq_some_iff] at h
    obtain ⟨s₁, -, h⟩ := h
    obtain ⟨s₂, hredraw⟩ : ∃ s₂, s₁.redraw none = .ok s₂ := ⟨_, rfl⟩
    rw [hredraw] at h
    exact ih h fun _ => showsStatus_redraw hredraw

/-- The end of a turn has nothing to say, but shows what was said if the screen is stale. -/
theorem said_settle (settled : s.settle none = (.running, s')) :
    s'.message = s.message ∧ s'.status = s.status ∧
      (s.machine.stale = true → s'.ShowsStatus ∧ s'.display.shown = s.display.shown + 1) ∧
      (s.machine.stale = false → s'.display = s.display) := by
  rw [settle, sound_none] at settled
  by_cases stale : s.machine.stale = true
  · simp only [refresh, stale, if_true] at settled
    cases settled
    exact ⟨rfl, rfl, fun _ => ⟨rfl, rfl⟩, by simp [stale]⟩
  · simp only [refresh, stale] at settled
    cases settled
    exact ⟨rfl, rfl, fun h => absurd h stale, fun _ => rfl⟩

theorem shown_le_settle (settled : s.settle none = (.running, s')) :
    s.display.shown ≤ s'.display.shown := by
  obtain ⟨-, -, shows, still⟩ := said_settle settled
  cases stale : s.machine.stale with
  | true =>
    rw [(shows stale).2]
    exact Nat.le_succ _
  | false => exact Nat.le_of_eq (by rw [still stale])

end

/-! ## Between commands and end -/

section
variable {s s₁ : Session} {r : Round} {ticks recordings : Nat}
  (hmove : s.atMove? r = some (ticks, recordings, s₁))
include hmove

theorem findsNothing_of_backwards (backwards : r.poll.rewinding = true) :
    s.findsNothing r = (recordings != 0 && s₁.history.rewind.1.isNone) := by
  simp [findsNothing, hmove, backwards]

theorem findsNothing_of_forwards (forwards : r.poll.rewinding = false) :
    s.findsNothing r = false := by
  simp [findsNothing, hmove, forwards]

end

theorem obey_of_told {s s₀ : Session} {r : Round} (works : r.broken = none)
    (htold : s.told r = some (.running, s₀)) :
    (s.withKeys r.poll.keypad).obey none r.poll.commands = some (.running, s₀) := by
  rw [← works]
  exact htold

/-- What is said between the commands of a turn that goes on and its end. -/
theorem exists_said {s s' : Session} {r : Round} (works : r.broken = none)
    (h : s.step r.poll r.elapsed r.broken = some (.running, s')) :
    ∃ s₀ s₁ : Session, s.told r = some (.running, s₀) ∧ s₁.settle none = (.running, s') ∧
      s₁.display = s₀.display ∧
      (s.findsNothing r = true →
        s₁.message = "nothing to rewind" ∧ s₁.machine.stale = s₀.machine.stale) ∧
      (s.findsNothing r = false → s₁.message = s₀.message ∧ s₁.status = s₀.status) := by
  obtain ⟨poll, elapsed, broken⟩ := r
  obtain rfl : broken = none := works
  cases comes_of_step h with
  | stopped htold ended => exact absurd rfl ended
  | @back ticks recordings s₁ _ _ hmove backwards settled =>
    have finds := findsNothing_of_backwards hmove backwards
    obtain ⟨s₀, timers, recorder, htold, -, -, rfl⟩ := atMove?_eq_some_iff.1 hmove
    refine ⟨s₀, _, htold, settled, ?_⟩
    rw [finds, wentBack]
    split
    · -- No recording is due: the key for going back is held, and nothing is looked for.
      next idle => exact ⟨rfl, by simp [idle], fun _ => ⟨rfl, rfl⟩⟩
    · next due =>
      unfold goBack
      rcases hrewind : s₀.history.rewind with ⟨_ | m, history⟩
      · exact ⟨rfl, fun _ => ⟨rfl, rfl⟩, by simp [due]⟩
      · exact ⟨rfl, by simp, fun _ => ⟨rfl, rfl⟩⟩
  | @forth ticks recordings s₁ progress m _ _ hmove forwards hcycle settled =>
    have finds := findsNothing_of_forwards hmove forwards
    obtain ⟨s₀, timers, recorder, htold, -, -, rfl⟩ := atMove?_eq_some_iff.1 hmove
    rw [finds]
    exact ⟨s₀, _, htold, settled, rfl, by simp, fun _ => ⟨rfl, rfl⟩⟩

/-! ## A turn -/

section
variable {s s' : Session} {r : Round} (works : r.broken = none)
  (h : s.step r.poll r.elapsed r.broken = some (.running, s'))
include works h

/-- A turn that does not fall silent shows what it says.  The status need not have been shown before
if the turn had a command or has another message. -/
theorem showsStatus_step (spoken : s.fallsSilent r = false)
    (known : r.poll.commands = [] → s'.message = s.message → s.ShowsStatus) :
    s'.ShowsStatus ∧ (s'.message ≠ s.message → s.display.shown < s'.display.shown) := by
  obtain ⟨s₀, s₁, htold, settled, display, nothing, something⟩ := exists_said works h
  have obeyed := obey_of_told works htold
  obtain ⟨commanded, stale₀⟩ := shown_obey obeyed
  have count : s₀.display.shown = s.display.shown + r.poll.commands.length := commanded.count
  obtain ⟨said, status, shows, still⟩ := said_settle settled
  rw [display] at shows still
  cases found : s.findsNothing r with
  | true =>
    -- The screen is stale, and so it is shown at the end of the turn.
    have stale : s₁.machine.stale = true := by
      rw [(nothing found).2, stale₀]
      rw [fallsSilent, found, Bool.true_and, Bool.not_eq_false'] at spoken
      exact spoken
    obtain ⟨known, one_more⟩ := shows stale
    exact ⟨known, fun _ => by omega⟩
  | false =>
    obtain ⟨same_message, same_status⟩ := something found
    have uncommanded : r.poll.commands = [] → s₀.message = s.message := by
      intro none
      rw [none] at obeyed
      cases obeyed
      rfl
    constructor
    · cases stale : s₁.machine.stale with
      | true => exact (shows stale).1
      | false =>
        have known₀ : s₀.ShowsStatus := showsStatus_obey obeyed fun none =>
          known none (said.trans (same_message.trans (uncommanded none)))
        unfold ShowsStatus at known₀ ⊢
        rw [still stale, status, same_status]
        exact known₀
    · intro changed
      have some_command : r.poll.commands ≠ [] := fun none =>
        changed (said.trans (same_message.trans (uncommanded none)))
      have := List.length_pos_iff.2 some_command
      have grows := shown_le_settle settled
      rw [display] at grows
      omega

/-- A turn that falls silent leaves the display as its commands left it. -/
theorem display_of_fallsSilent (silent : s.fallsSilent r = true) :
    s'.message = "nothing to rewind" ∧
      ∃ s₀, s.told r = some (.running, s₀) ∧ s'.display = s₀.display := by
  obtain ⟨s₀, s₁, htold, settled, display, nothing, -⟩ := exists_said works h
  rw [fallsSilent, Bool.and_eq_true, Bool.not_eq_true'] at silent
  obtain ⟨found, fresh⟩ := silent
  obtain ⟨message, stale⟩ := nothing found
  have obeyed := obey_of_told works htold
  have stale₀ : s₀.machine.stale = false := (shown_obey obeyed).2.trans fresh
  obtain ⟨said, -, -, still⟩ := said_settle settled
  exact ⟨said.trans message, s₀, htold, (still (stale.trans stale₀)).trans display⟩

end

/-! ## Many turns -/

/-- No turn on the way falls silent. -/
def Spoken (s : Session) : List Round → Prop
  | [] => True
  | r :: later =>
    s.fallsSilent r = false ∧
      ∀ outcome s₁, s.step r.poll r.elapsed r.broken = some (outcome, s₁) → s₁.Spoken later

/-- A display that shows the status goes on showing it. -/
theorem showsStatus_rounds {s s' : Session} {rounds : List Round} {outcomes : List Outcome}
    (known : s.ShowsStatus) (works : ∀ r ∈ rounds, r.broken = none)
    (h : s.rounds rounds = some (outcomes, s')) (going : ∀ o ∈ outcomes, o = .running)
    (spoken : s.Spoken rounds) : s'.ShowsStatus := by
  induction rounds generalizing s outcomes with
  | nil =>
    cases h
    exact known
  | cons r later ih =>
    obtain ⟨outcome, s₁, after, hstep, hlater, rfl⟩ := rounds_cons_eq_some_iff.1 h
    rw [List.forall_mem_cons] at works going
    have rest := spoken.2 _ _ hstep
    rw [going.1] at hstep
    exact ih (showsStatus_step works.1 hstep spoken.1 fun _ _ => known).1 works.2 hlater going.2 rest

/-- Turns never clear the history. -/
theorem clear_not_mem_recalls (s : Session) (rounds : List Round) : .clear ∉ s.recalls rounds := by
  induction rounds generalizing s with
  | nil => simp [recalls]
  | cons r later ih =>
    have first : s.recalled? r ≠ some .clear := by
      unfold recalled?
      grind
    rw [recalls, List.mem_append, Option.mem_toList]
    rintro (cleared | cleared)
    · exact first cleared
    · split at cleared
      · exact ih _ cleared
      · cases cleared

/-- Once a machine has been recorded, no turn falls silent. -/
theorem not_fallsSilent_of_recorded {settings : Settings} {machine m : Machine} {slots : Slots}
    {disk : Disk} {s s' : Session} (hstart : start settings machine slots disk = some (.ok s))
    {rounds : List Round} {outcomes : List Outcome} (h : s.rounds rounds = some (outcomes, s'))
    (recorded : .record m ∈ s.recalls rounds) (r : Round) : s'.fallsSilent r = false := by
  obtain ⟨room, empty⟩ := history_start hstart
  have represents := ((History.represents_empty room).run (s.recalls rounds)).2
  rw [← empty, ← history_rounds h] at represents
  have handed : s'.history.rewind.1 ≠ none := by
    obtain ⟨before, after, hcalls⟩ := List.append_of_mem recorded
    have uncleared : .clear ∉ after := by
      intro cleared
      refine clear_not_mem_recalls s rounds ?_
      rw [hcalls]
      exact List.mem_append_right _ (List.mem_cons_of_mem _ cleared)
    rw [represents.rewind.1]
    exact (UndoStack.rewind_run room _).2 (.inl ⟨before, m, after, hcalls, uncleared⟩)
  rw [fallsSilent, findsNothing]
  split
  · rfl
  · next ticks recordings s₁ hmove =>
    rw [history_atMove? hmove]
    simp [handed]

/-! ## Main statement -/

/-- A turn that goes on and has another message.  Something was shown in it, and the status shown last
has the message in it, unless the turn found nothing to go back to and had nothing to show it with:
then the display is as the last command left it, and what that shows has other words. -/
theorem tells_step {s s' : Session} {r : Round} (works : r.broken = none)
    (h : s.step r.poll r.elapsed r.broken = some (.running, s'))
    (changed : s'.message ≠ s.message) :
    s.Tells s' ↔ s.fallsSilent r = false ∨
      ∃ text, s.commandStatus? r = some text ∧ s'.message.toList <:+: text.toList := by
  cases silent : s.fallsSilent r with
  | false =>
    obtain ⟨known, shown⟩ := showsStatus_step works h silent fun _ same => absurd same changed
    exact ⟨fun _ => .inl rfl, fun _ => known.tells (shown changed)⟩
  | true =>
    -- Only the commands of the turn have shown anything.
    obtain ⟨-, s₀, htold, display⟩ := display_of_fallsSilent works h silent
    have obeyed := obey_of_told works htold
    have count : s₀.display.shown = s.display.shown + r.poll.commands.length :=
      (shown_obey obeyed).1.count
    rw [Tells, display, commandStatus?, htold]
    cases commands : r.poll.commands with
    | nil =>
      rw [commands, List.length_nil] at count
      simp [count]
    | cons c later =>
      have known : s₀.ShowsStatus := showsStatus_obey obeyed fun none => by
        rw [commands] at none
        cases none
      obtain ⟨picture, hlast, hstatus⟩ := Option.map_eq_some_iff.1 known
      rw [commands, List.length_cons] at count
      simp [hlast, hstatus, count]

/-- A turn backwards goes on where devices work, and says what going back says. -/
theorem exists_step_back {s s₁ : Session} {r : Round} {ticks recordings : Nat}
    (works : r.broken = none) (hmove : s.atMove? r = some (ticks, recordings, s₁))
    (backwards : r.poll.rewinding = true) :
    ∃ s', s.step r.poll r.elapsed r.broken = some (.running, s') ∧
      s'.message = (s₁.wentBack recordings).message := by
  have hstep := step_of_atMove? hmove
  have settled : (s₁.wentBack recordings).settle none = (.running, _) :=
    Prod.ext (settle_none _) rfl
  rw [if_pos backwards, works, settled] at hstep
  refine ⟨_, ?_, (said_settle settled).1⟩
  rw [works]
  exact hstep

/-- A load from a slot with nothing in it says so, and that is shown. -/
theorem tells_step_load :
    let r : Round := ⟨⟨.released, [.load], true⟩, 0, none⟩
    ∃ s s' : Session, start .default (.ofSeed ⟨false, false⟩ 3) ⟨⟨"saves"⟩, "pong", 2, 0⟩ .blank =
        some (.ok s) ∧ r.broken = none ∧
      s.step r.poll r.elapsed r.broken = some (.running, s') ∧ s'.message ≠ s.message ∧
      s'.message = "save slot 0 is empty" ∧ s.Tells s' := by
  intro r
  obtain ⟨s, hstart⟩ := exists_start Settings.firstZero?_default (by decide)
    (.ofSeed ⟨false, false⟩ 3) ⟨⟨"saves"⟩, "pong", 2, 0⟩ .blank
  obtain ⟨-, -, hslots, hdisk, -⟩ := start_eq_some_ok hstart
  obtain ⟨htimers, hrecorder⟩ := still_of_start hstart
  have hload : s.slots.load s.disk s.slots.selected = .error (.slotEmpty 0) := by
    rw [hslots, hdisk]
    with_unfolding_all rfl
  obtain ⟨s₀, htold, hmessage⟩ : ∃ s₀, s.told r = some (.running, s₀) ∧
      s₀.message = "save slot 0 is empty" := by
    refine ⟨_, rfl, ?_⟩
    show (s.withKeys .released).loadSlot.message = _
    simp only [loadSlot, withKeys, hload]
    with_unfolding_all rfl
  have hmove : s.atMove? r = some (0, 0, _) :=
    atMove?_eq_some_iff.2 ⟨s₀, _, _, htold, htimers, hrecorder, rfl⟩
  obtain ⟨s', hstep, said⟩ := exists_step_back rfl hmove rfl
  have told : s'.message = "save slot 0 is empty" := said.trans hmessage
  have changed : s'.message ≠ s.message := by
    rw [told, (quiet_of_start hstart).2]
    decide
  have spoken : s.fallsSilent r = false := by
    rw [fallsSilent, findsNothing_of_backwards hmove rfl]
    rfl
  exact ⟨s, s', hstart, rfl, hstep, changed, told, (tells_step rfl hstep changed).2 (.inl spoken)⟩

/-- The key for going back is held in the first turn, which says that there is nothing to go back to.
Nothing is shown. -/
theorem tells_step_nothing :
    let r : Round := ⟨⟨.released, [], true⟩, second / 60, none⟩
    ∃ s s' : Session, start .default (.ofSeed ⟨false, false⟩ 3) ⟨⟨"saves"⟩, "pong", 2, 0⟩ .blank =
        some (.ok s) ∧ r.broken = none ∧
      s.step r.poll r.elapsed r.broken = some (.running, s') ∧ s'.message ≠ s.message ∧
      s'.message = "nothing to rewind" ∧ s'.display = s.display ∧ ¬s.Tells s' := by
  intro r
  obtain ⟨s, hstart⟩ := exists_start Settings.firstZero?_default (by decide)
    (.ofSeed ⟨false, false⟩ 3) ⟨⟨"saves"⟩, "pong", 2, 0⟩ .blank
  obtain ⟨-, hmachine, -, -, -, htimers, hrecorder⟩ := start_eq_some_ok hstart
  obtain ⟨room, empty⟩ := history_start hstart
  have tick : (Cadence.perSecond 60).advance (second / 60) = some (1, .perSecond 60) := by decide
  obtain ⟨s₁, hmove, history⟩ : ∃ s₁, s.atMove? r = some (1, 1, s₁) ∧ s₁.history = s.history := by
    refine ⟨_, atMove?_eq_some_iff.2 ⟨s.withKeys .released, .perSecond 60, .perSecond 60, rfl, ?_, ?_,
      rfl⟩, rfl⟩
    · rw [htimers]
      exact tick
    · rw [hrecorder]
      exact tick
  obtain ⟨s', hstep, -⟩ := exists_step_back rfl hmove rfl
  have finds : s.findsNothing r = true := by
    rw [findsNothing_of_backwards hmove rfl, history, empty,
      (History.represents_empty room).rewind.1]
    rfl
  have silent : s.fallsSilent r = true := by
    rw [fallsSilent, finds, hmachine]
    rfl
  obtain ⟨told, s₀, htold, display⟩ := display_of_fallsSilent rfl hstep silent
  obtain rfl : s.withKeys .released = s₀ := by
    cases htold
    rfl
  have changed : s'.message ≠ s.message := by
    rw [told, (quiet_of_start hstart).2]
    decide
  refine ⟨s, s', hstart, rfl, hstep, changed, told, display, ?_⟩
  rintro ⟨shown, -⟩
  rw [display] at shown
  exact Nat.lt_irrefl _ shown

end Session

end Chip8
