import Chip8.Play.Cadence
import Chip8.Play.Controls
import Chip8.Play.History
import Chip8.Play.Tone
import Chip8.Storage.Slots

/-!
# Session

A machine at play.  `Session.step` is one turn: take the polled keys, obey the commands, execute
one instruction or go one recording back, let the timers and the recorder tick as time has passed,
and bring tone and display up to date.

The status line tells of the slot and of what came of the last command.  Failures of saving and
loading end up there and never end the session.
-/

namespace Chip8

/-- What the player sees. -/
structure Picture where
  screen : Screen
  status : String
  deriving DecidableEq, Repr

/-- A display: how many pictures it has shown, and the last of them. -/
structure Display where
  shown : Nat
  last : Option Picture
  deriving DecidableEq, Repr

def Display.blank : Display := ⟨0, none⟩

def Display.show (d : Display) (picture : Picture) : Display := ⟨d.shown + 1, some picture⟩

/-- A call to a device, which may fail. -/
inductive DeviceCall where
  | keypad
  | draw
  | beep
  | stop
  deriving DecidableEq, Repr

def DeviceCall.name : DeviceCall → String
  | keypad => "keypad"
  | draw => "draw"
  | beep => "beep"
  | stop => "stop"

/-- Why a turn failed. -/
inductive TurnError where
  | fault (f : Fault)
  | device (call : DeviceCall)
  deriving DecidableEq, Repr

/-- What came of a turn. -/
inductive Outcome where
  | running
  | quit
  | failed (problem : TurnError)
  deriving DecidableEq, Repr

structure Session where
  machine : Machine
  history : History Machine
  slots : Slots
  disk : Disk
  display : Display
  tone : Tone
  /-- Ticks the machine's timers. -/
  timers : Cadence
  /-- Says when to record. -/
  recorder : Cadence
  /-- Time of an instruction at the rate of the settings. -/
  cyclePeriod : Nat
  message : String
  /-- Instructions executed. -/
  cycles : Nat
  deriving DecidableEq, Repr

namespace Session

/-- A session that has not begun, unless a setting is zero.  It has to have room for its history. -/
def start (settings : Settings) (machine : Machine) (slots : Slots) (disk : Disk) :
    Option (Except Failure Session) :=
  match settings.firstZero? with
  | some setting => some (.error (.settings setting))
  | none =>
    (History.ofCapacity? settings.rewindBufferSize.toNat).map fun history => .ok {
      machine, slots, disk, history
      display := .blank
      tone := .silent
      timers := .perSecond settings.timerUpdatesPerSecond
      recorder := .perSecond settings.rewindFrequency
      cyclePeriod := second / settings.cyclesPerSecond.toNat
      message := ""
      cycles := 0 }

/-- The status line: the selected slot, whether it is empty, and the message. -/
def status (s : Session) : String :=
  let empty := if s.slots.isEmpty s.disk s.slots.selected then " (empty)" else ""
  s!"slot {s.slots.selected}{empty}  {s.message}"

/-! ## Devices -/

/-- Shows the screen, unless the display fails; then it stays stale. -/
def redraw (s : Session) (broken : Option DeviceCall) : Except TurnError Session :=
  if broken = some .draw then .error (.device .draw)
  else .ok { s with
    display := s.display.show ⟨s.machine.screen, s.status⟩
    machine := s.machine.markShown }

/-- Shows the screen if it is stale. -/
def refresh (s : Session) (broken : Option DeviceCall) : Except TurnError Session :=
  if s.machine.stale then s.redraw broken else .ok s

/-- Brings the tone in line with what is wanted, unless the beeper fails at it. -/
def sound (s : Session) (wanted : Bool) (broken : Option DeviceCall) : Except TurnError Session :=
  if wanted ∧ ¬s.tone.isBeeping ∧ broken = some .beep then .error (.device .beep)
  else if ¬wanted ∧ s.tone.isBeeping ∧ broken = some .stop then .error (.device .stop)
  else .ok { s with tone := s.tone.follow wanted }

/-! ## Commands -/

/-- Another machine in place of this one, to be shown. -/
def resume (s : Session) (machine : Machine) : Session := { s with machine := machine.markStale }

/-- The machine put into the selected slot. -/
def saveSlot (s : Session) : Session :=
  match s.slots.save s.disk s.slots.selected s.machine with
  | (.ok (), disk) => { s with disk, message := s!"saved slot {s.slots.selected}" }
  | (.error failure, disk) => { s with disk, message := s!"save failed: {failure.message}" }

/-- The machine of the selected slot. -/
def loadSlot (s : Session) : Session :=
  match s.slots.load s.disk s.slots.selected with
  | .ok machine => { s.resume machine with message := s!"loaded slot {s.slots.selected}" }
  | .error failure =>
    if failure.isRecoverable then { s with message := failure.message }
    else { s with message := s!"load failed: {failure.message}" }

/-- What a command does, quitting aside. -/
def command (s : Session) : Command → Option Session
  | .quit => some s
  | .save => some s.saveSlot
  | .load => some s.loadSlot
  | .nextSlot => some { s with slots := s.slots.selectNext, message := "" }
  | .previousSlot => s.slots.selectPrevious?.map fun slots => { s with slots, message := "" }

/-- Commands in order, each shown at once.  Those after a quit are lost. -/
def obey (s : Session) (broken : Option DeviceCall) : List Command → Option (Outcome × Session)
  | [] => some (.running, s)
  | .quit :: _ => some (.quit, s)
  | c :: later => do
    let s ← s.command c
    match s.redraw broken with
    | .ok s => s.obey broken later
    | .error problem => return (.failed problem, s)

/-! ## Turns -/

/-- One recording back, if there ever was one. -/
def goBack (s : Session) : Session :=
  match s.history.rewind with
  | (some machine, history) => { s.resume machine with history }
  | (none, history) => { s with history, message := "nothing to rewind" }

/-- One instruction, and the ticks that are due after it. -/
def goOn (s : Session) (ticks recordings : Nat) : Option (Outcome × Session) := do
  match ← s.machine.cycle with
  | (.error f, machine) => return (.failed (.fault f), { s with machine })
  | (.ok _, machine) =>
    let machine := machine.tickTimers ticks
    let history := if recordings = 0 then s.history else s.history.record machine
    return (.running, { s with machine, history, cycles := s.cycles + 1 })

/-- Tone and display after the machine has moved. -/
def settle (s : Session) (broken : Option DeviceCall) : Outcome × Session :=
  match s.sound s.machine.isSounding broken with
  | .error problem => (.failed problem, s)
  | .ok s =>
    match s.refresh broken with
    | .error problem => (.failed problem, s)
    | .ok s => (.running, s)

/-- The machine forwards or backwards, as time has passed. -/
def move (s : Session) (rewinding : Bool) (elapsed : Nat) : Option (Outcome × Session) := do
  let (ticks, timers) ← s.timers.advance elapsed
  let (recordings, recorder) ← s.recorder.advance elapsed
  let s := { s with timers, recorder }
  if rewinding then return (.running, if recordings = 0 then s else s.goBack)
  else s.goOn ticks recordings

/-- One turn with what was polled.  It has no outcome where the machine is damaged, a cadence is never
done ticking, or a count does not fit. -/
def step (s : Session) (poll : Poll) (elapsed : Nat) (broken : Option DeviceCall) :
    Option (Outcome × Session) := do
  let s := { s with machine := s.machine.setKeypad poll.keypad }
  match ← s.obey broken poll.commands with
  | (.running, s) =>
    match ← s.move poll.rewinding elapsed with
    | (.running, s) => return s.settle broken
    | ended => return ended
  | ended => return ended

end Session

end Chip8
