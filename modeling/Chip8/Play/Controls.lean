import Chip8.Machine.State

/-!
# Controls

What a player does between two instructions: the keys held, the commands given, and whether the
machine is to go backwards.  It comes from a keyboard or from a script.

A keyboard tells of keys going down and never of keys coming up, so a key counts as held for
`holdPolls` polls.
-/

namespace Chip8

inductive Command where
  | quit
  | save
  | load
  | nextSlot
  | previousSlot
  deriving DecidableEq, Repr

/-- The answer of an input device. -/
structure Poll where
  keypad : Keypad
  commands : List Command
  rewinding : Bool
  deriving DecidableEq, Repr

/-! ## Keyboard -/

/-- A key of the keyboard. -/
inductive Key where
  | character (c : Char)
  | escape
  | backspace
  | function (number : Nat)
  /-- Any other key, or no key at all. -/
  | other
  deriving DecidableEq, Repr

/-- The key of a name.  A character names itself. -/
def Key.ofName (name : String) : Key :=
  match name.toList with
  | [c] => character c
  | _ =>
    if name = "Esc" then escape
    else if name = "Backspace" then backspace
    else
      match (List.range 13).find? fun number => name = s!"F{number}" with
      | some number => function number
      | none => other

/-- The key of the machine that a character stands for, letters in either case: the left four
columns of a keyboard, laid over the square of sixteen keys. -/
def hexKey? (c : Char) : Option (Fin 16) :=
  ['x', '1', '2', '3', 'q', 'w', 'e', 'a',
    's', 'd', 'z', 'c', '4', 'r', 'f', 'v'].finIdxOf? c.toLower

/-- The command that a key gives. -/
def Key.command? : Key → Option Command
  | escape => some .quit
  | function 5 => some .save
  | function 6 => some .previousSlot
  | function 7 => some .nextSlot
  | function 8 => some .load
  | _ => none

/-- Polls for which a key counts as held. -/
def holdPolls : Nat := 8

structure Keyboard where
  /-- Keys that no poll has read yet, in order. -/
  typed : List Key
  /-- For each of the machine's keys, for how many polls it is still held. -/
  held : Cells Nat 16
  /-- The same for going backwards. -/
  rewind : Nat
  /-- Commands not yet taken, in order. -/
  commands : List Command
  deriving DecidableEq, Repr

namespace Keyboard

def idle : Keyboard := ⟨[], Vector.replicate 16 0, 0, []⟩

/-- Keys typed and not yet read. -/
def type (k : Keyboard) (keys : List Key) : Keyboard := { k with typed := k.typed ++ keys }

/-- Commands that a key adds. -/
def commandOf (key : Key) : List Command := key.command?.toList

/-- One key read. -/
def press (k : Keyboard) (key : Key) : Keyboard :=
  let k := { k with commands := k.commands ++ commandOf key }
  match key with
  | .character c =>
    match hexKey? c with
    | some x => { k with held := k.held.put x holdPolls }
    | none => k
  | .backspace => { k with rewind := holdPolls }
  | _ => k

/-- Everything typed read in order. -/
def readTyped (k : Keyboard) : Keyboard := k.typed.foldl press { k with typed := [] }

/-- The keys that are held at a poll.  Every count goes down by one. -/
def poll (k : Keyboard) : Keypad × Keyboard :=
  let k := k.readTyped
  (k.held.map (0 < ·), { k with held := k.held.map (· - 1), rewind := k.rewind - 1 })

/-- The commands given since they were taken last. -/
def takeCommands (k : Keyboard) : List Command × Keyboard := (k.commands, { k with commands := [] })

/-- Whether the machine is to go backwards, asked after a poll. -/
def isRewinding (k : Keyboard) : Bool := 0 < k.rewind

end Keyboard

/-! ## Scripts -/

/-- An input that is set from outside. -/
structure Script where
  keypad : Keypad
  commands : List Command
  rewinding : Bool
  deriving DecidableEq, Repr

/-- A script that does nothing. -/
def Script.idle : Script := ⟨.released, [], false⟩

/-! ## Either of them -/

inductive Controls where
  | keyboard (k : Keyboard)
  | script (s : Script)
  deriving DecidableEq, Repr

/-- One poll; commands are given once. -/
def Controls.poll : Controls → Poll × Controls
  | keyboard k =>
    let (keypad, k) := k.poll
    let (commands, k) := k.takeCommands
    (⟨keypad, commands, k.isRewinding⟩, keyboard k)
  | script s => (⟨s.keypad, s.commands, s.rewinding⟩, script { s with commands := [] })

end Chip8
