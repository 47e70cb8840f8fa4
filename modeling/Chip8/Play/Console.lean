import Chip8.Play.Session

/-!
# Console

A session with its input device.  `Console.run` is the main loop: turn after turn until the player
quits, a turn fails, or enough instructions have been executed.
-/

namespace Chip8

structure Console where
  session : Session
  controls : Controls
  deriving DecidableEq, Repr

/-- How a run ended. -/
inductive Ending where
  | finished
  | failed (problem : TurnError)
  /-- The times given were used up. -/
  | stillRunning
  deriving DecidableEq, Repr

namespace Console

/-- One turn.  Where the input device fails, nothing of it is read. -/
def step (c : Console) (elapsed : Nat) (broken : Option DeviceCall) :
    Option (Outcome × Console) :=
  if broken = some .keypad then some (.failed (.device .keypad), c)
  else
    let (poll, controls) := c.controls.poll
    (c.session.step poll elapsed broken).map fun (outcome, session) =>
      (outcome, { session, controls })

/-- Up to `count` turns of the same length, as long as they go well: how many were taken and what
came of the last. -/
def steps (c : Console) (elapsed : Nat) (broken : Option DeviceCall) (count : Nat) :
    Option (Nat × Outcome × Console) :=
  go 0 .running c count
where
  go (taken : Nat) (last : Outcome) (c : Console) : Nat → Option (Nat × Outcome × Console)
    | 0 => some (taken, last, c)
    | count + 1 => do
      match ← c.step elapsed broken with
      | (.running, c) => go (taken + 1) .running c count
      | (ended, c) => some (taken + 1, ended, c)

/-- Stops the tone at the end of a run. -/
def silence (c : Console) (broken : Option DeviceCall) : Ending × Console :=
  match c.session.sound false broken with
  | .ok session => (.finished, { c with session })
  | .error problem => (.failed problem, c)

/-- Turns that last the given times.  The limit on instructions is looked at after a turn, so the
first turn is always taken. -/
def run (c : Console) (limit : Option Nat) (broken : Option DeviceCall) :
    List Nat → Option (Ending × Console)
  | [] => some (.stillRunning, c)
  | elapsed :: later => do
    match ← c.step elapsed broken with
    | (.failed problem, c) => return (.failed problem, c)
    | (.quit, c) => return c.silence broken
    | (.running, c) =>
      if limit.any (· ≤ c.session.cycles) then return c.silence broken
      else c.run limit broken later

end Console

end Chip8
