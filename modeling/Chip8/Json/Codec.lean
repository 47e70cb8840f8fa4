import Chip8.Numeral
import Chip8.Json.Number
import Chip8.Json.Skip

/-!
# Codecs

A codec is a written form: how a value is written, and how it is read back.  Here are those of
numbers, truth values, strings and arrays.  An array of fixed length is `unfit` when it ends early
and `malformed` when it goes on.
-/

namespace Chip8.Json

/-- How values of a type are written and read. -/
structure Codec (α : Type) where
  write : α → List UInt8
  read : Reader α

/-- Parts with commas between them. -/
def separated (parts : List (List UInt8)) : List UInt8 := (parts.intersperse [comma]).flatten

/-! ## Single values -/

namespace Reader

variable {α : Type}

/-- A value of the wrong shape.  A container is refused at once, other values when they have been
read to their end. -/
def mismatch : Reader α := do
  let b ← peek
  if b = openArray ∨ b = openRecord then fail .unfit
  else if isDigit b then discard (Number.read false)
  else
    drop
    match Skip.literal? b with
    | some letters => word letters
    | none =>
      if b = minus then discard (Number.read true)
      else if b = quote then discard Text.read
      else fail .malformed
  fail .unfit

/-- A natural number below a bound. -/
def natural (bound : Nat) : Reader Nat := do
  let b ← peek
  if isDigit b then
    match ← Number.read false with
    | .natural n => if n < bound then return n else fail .unfit
    | .other => fail .unfit
  else mismatch

def bool : Reader Bool := do
  let b ← peek
  match Skip.literal? b with
  | some letters =>
    drop
    word letters
    if b = 0x74 then return true else if b = 0x66 then return false else fail .unfit
  | none => mismatch

def text : Reader String := do
  if (← peek) = quote then
    drop
    Text.read
  else mismatch

/-! ## Arrays -/

/-- The end of an array that has all its items. -/
def endArray : Reader Unit := expect closeArray

/-- Items up to the end of the array.  Each takes at least a byte, which bounds their number. -/
def items (item : Reader α) : Nat → Bool → Array α → Reader (Array α)
  | 0, _, _ => fail .malformed
  | fuel + 1, first, done => do
    if ← another closeArray first then
      let a ← item
      items item fuel false (done.push a)
    else
      drop
      return done

/-- An array of any length. -/
def array (item : Reader α) : Reader (Array α) := do
  if (← peek) = openArray then
    drop
    let text ← get
    items item (text.length + 1) true #[]
  else mismatch

/-- So many items, and the end of the array. -/
def exactItems (item : Reader α) : Nat → Bool → Reader (List α)
  | 0, _ => do
    endArray
    return []
  | count + 1, first => do
    if ← another closeArray first then
      let a ← item
      let later ← exactItems item count false
      return a :: later
    else fail .unfit

/-- An array of a given length. -/
def vector (item : Reader α) (n : Nat) : Reader (Vector α n) := do
  if (← peek) = openArray then
    drop
    let l ← exactItems item n true
    if h : l.length = n then return ⟨l.toArray, h⟩ else fail .unfit
  else mismatch

end Reader

namespace Codec

def bool : Codec Bool where
  write b := ascii (if b then "true" else "false")
  read := Reader.bool

def uint8 : Codec UInt8 where
  write n := Numeral.decimal n.toNat
  read := UInt8.ofNat <$> Reader.natural UInt8.size

def uint16 : Codec UInt16 where
  write n := Numeral.decimal n.toNat
  read := UInt16.ofNat <$> Reader.natural UInt16.size

def uint32 : Codec UInt32 where
  write n := Numeral.decimal n.toNat
  read := UInt32.ofNat <$> Reader.natural UInt32.size

def uint64 : Codec UInt64 where
  write n := Numeral.decimal n.toNat
  read := UInt64.ofNat <$> Reader.natural UInt64.size

/-- A number of which only the low `width` bits count. -/
def wide (width : Nat) : Codec (BitVec width) where
  write n := Numeral.decimal n.toNat
  read := BitVec.ofNat width <$> wideNatural

def text : Codec String where
  write := Text.write
  read := Reader.text

variable {α β : Type}

def array (item : Codec α) : Codec (Array α) where
  write as := openArray :: separated (as.toList.map item.write) ++ [closeArray]
  read := Reader.array item.read

def vector (item : Codec α) (n : Nat) : Codec (Vector α n) where
  write as := openArray :: separated (as.toList.map item.write) ++ [closeArray]
  read := Reader.vector item.read n

/-- The same written form for another type. -/
def transport (c : Codec α) (make : α → β) (parts : β → α) : Codec β where
  write b := c.write (parts b)
  read := make <$> c.read

end Codec

end Chip8.Json
