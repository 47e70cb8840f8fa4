/-!
# Reading JSON

A reader takes a value off the front of a text of bytes.  It goes left to right and builds values
as it reads, so the first problem in the text decides what is reported:

* `truncated`: the text ends inside a value;
* `malformed`: the text is no JSON, or holds a number or character that cannot be kept;
* `unfit`: JSON so far, but not what is wanted here.
-/

namespace Chip8.Json

/-- Why a text is refused. -/
inductive Problem where
  | truncated
  | malformed
  | unfit
  deriving DecidableEq, Repr

/-! ## Bytes with a meaning -/

abbrev quote : UInt8 := 0x22
abbrev backslash : UInt8 := 0x5C
abbrev comma : UInt8 := 0x2C
abbrev colon : UInt8 := 0x3A
abbrev minus : UInt8 := 0x2D
abbrev plus : UInt8 := 0x2B
abbrev point : UInt8 := 0x2E
abbrev openArray : UInt8 := 0x5B
abbrev closeArray : UInt8 := 0x5D
abbrev openRecord : UInt8 := 0x7B
abbrev closeRecord : UInt8 := 0x7D

/-- Blank, tab, line feed or carriage return. -/
def isBlank (b : UInt8) : Bool := b == 0x20 || b == 0x09 || b == 0x0A || b == 0x0D

def isDigit (b : UInt8) : Bool := 0x30 ≤ b && b ≤ 0x39

/-- The letter that announces an exponent. -/
def isExponentMark (b : UInt8) : Bool := b == 0x65 || b == 0x45

/-- The bytes of a text in ASCII. -/
def ascii (s : String) : List UInt8 := s.toList.map Char.toUInt8

/-! ## Readers -/

/-- Takes a value off a text, or says why there is none. -/
abbrev Reader := StateT (List UInt8) (Except Problem)

namespace Reader

variable {α : Type}

def fail (problem : Problem) : Reader α := fun _ => .error problem

/-- The text without leading blanks. -/
def skipBlanks (text : List UInt8) : List UInt8 := text.dropWhile isBlank

/-- The first byte past the blanks, left in the text. -/
def peek : Reader UInt8 := fun text =>
  match skipBlanks text with
  | [] => .error .truncated
  | b :: rest => .ok (b, b :: rest)

/-- One byte less. -/
def drop : Reader Unit := fun text => .ok ((), text.tail)

/-- A byte that has to come next, past blanks. -/
def expect (wanted : UInt8) : Reader Unit := do
  if (← peek) = wanted then drop else fail .malformed

/-- Bytes that have to come next, without blanks. -/
def word : List UInt8 → Reader Unit
  | [], text => .ok ((), text)
  | _ :: _, [] => .error .truncated
  | wanted :: later, b :: rest => if b = wanted then word later rest else .error .malformed

/-- Whether another item comes before the closing byte.  Items are separated by commas; `first` says
that none has been read yet.  The closing byte is left in the text. -/
def another (close : UInt8) (first : Bool) : Reader Bool := do
  let b ← peek
  if b = close then return false
  if first then return true
  if b = comma then
    drop
    if (← peek) = close then fail .malformed else return true
  else fail .malformed

end Reader

/-- A whole text: one value, with nothing but blanks after it. -/
def parse {α : Type} (value : Reader α) (text : List UInt8) : Except Problem α :=
  match value text with
  | .error problem => .error problem
  | .ok (a, rest) => if rest.all isBlank then .ok a else .error .malformed

end Chip8.Json
